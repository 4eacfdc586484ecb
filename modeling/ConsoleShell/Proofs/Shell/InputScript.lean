/-
Lines that redirect their input, and the console.

A line without words that redirects its input runs the script of that name.  The name goes where
the names of scripts go in general, and there the empty name and a reserved one stand for the
console.  The empty name is refused before that; the reserved one is not.  This file compares a
line of this kind with what such a line is for, namely to run the file at the resolved name or to
say why it cannot, and shows that the reserved name is the only one with which it does something
else.
-/
import ConsoleShell.Proofs.Shell.Diagnosis

namespace ConsoleShell

namespace Source

lemma ofPath_of_ne {name : Bytes} (hname : name ≠ []) (hreserved : name ≠ consoleName) :
    ofPath name = .script name := by
  simp [ofPath, hname, hreserved]

end Source

namespace Interpreter

open Machine

/-! ### The source of an invocation -/

section StartsOne

variable {α : Type} {x : Invoke → ShellM FileStore α} {m n n' : Machine}
  {context context' : Option Context} {source source' : Source} {definitions definitions' : Bytes}
  {finish finish' : Outcome → Machine → α × Machine}

/-- What starts one invocation starts it on one source. -/
lemma StartsOne.source_eq (h : StartsOne x m context source definitions n finish)
    (h' : StartsOne x m context' source' definitions' n' finish') : source = source' := by
  by_contra hne
  -- invocations that return on all sources but one tell the two apart
  have hrun := h fun _ s _ n => if s = source then none else some (⟨false, none⟩, n)
  have hrun' := h' fun _ s _ n => if s = source then none else some (⟨false, none⟩, n)
  rw [hrun] at hrun'
  simp [Ne.symm hne] at hrun'

/-- What returns whatever invocations do starts none. -/
lemma StartsOne.not_of_forall {p : α × Machine} (h : ∀ invoke, x invoke m = some p) :
    ¬ StartsOne x m context source definitions n finish := by
  intro hone
  have hrun := hone fun _ _ _ _ => none
  rw [h] at hrun
  cases hrun

end StartsOne

/-- A script is read from its file line by line, without prompts. -/
lemma openSource_of_opened {name : Bytes} {m n : Machine} {h : Nat}
    (hfile : m.openFile (.open (m.resolve name)) = (.ok h, n)) :
    openSource (.script name) m = (.ok (.stream (.file h) {} none), n) := by
  simp only [openSource, hfile]

/-- What is written if the file of a script cannot be opened. -/
def missingText (name : Bytes) (f : FileFault) : Bytes :=
  ("Can't open " : Bytes) ++ name ++ ": " ++ f.reason.message

lemma openSource_of_missing {name : Bytes} {m n : Machine} {f : FileFault}
    (hfile : m.openFile (.open (m.resolve name)) = (.error f, n)) :
    openSource (.script name) m =
      (.error (.setup .inputOutput f.message), n.writeLine .error (missingText name f)) := by
  simp only [openSource, hfile, missingText]

/-! ### What a line does that redirects its input -/

section Lines

variable (m : Machine) (line : Line) (context : Option Context) (location : Location)

/-- The line opens the console: it starts one invocation, and that reads from the console. -/
def StartsConsole : Prop :=
  ∃ inner definitions n finish, StartsOne (fun invoke => handleSplit invoke context line location)
    m inner .console definitions n finish

/-- The line runs the file with a name as a script: it starts one invocation, which is not
interactive and reads from the file at the resolved name without prompts. -/
def RunsScript (name : Bytes) : Prop :=
  ∃ n finish h n₁, StartsOne (fun invoke => handleSplit invoke context line location)
      m context (.script name) [] n finish ∧
    n.openFile (.open (m.resolve name)) = (.ok h, n₁) ∧
    openSource (.script name) n = (.ok (.stream (.file h) {} none), n₁) ∧
    (Source.script name).scope.interactive = false

/-- The line fails and runs nothing: a target is refused, or the file of the script cannot be
opened.  Either is written to the error output before the line is marked. -/
inductive FailsToRun (name : Bytes) : Machine → Prop
  | refused {f : RedirectionFault} {n : Machine} (hrefuses : Refuses line m f n)
      (hrun : ∀ invoke, handleSplit invoke context line location m =
        some (.goOn, fail location f.message n)) : FailsToRun name (fail location f.message n)
  | missing {rs : Redirects} {n₁ n : Machine} {f : FileFault}
      (hopen : line.targets.openAll m.resolve m = (none, rs, n₁))
      (hfile : (rs.attach n₁).2.openFile (.open (m.resolve name)) = (.error f, n))
      (hrun : ∀ fuel, handleSplit (invoke (fuel + 1)) context line location m =
        some (.goOn, detach (rs.attach n₁).1 location
          ((n.writeLine .error (missingText name f)).setErrored true))) :
      FailsToRun name (detach (rs.attach n₁).1 location
        ((n.writeLine .error (missingText name f)).setErrored true))

end Lines

section Cases

variable {m : Machine} {line : Line} {name : Bytes}

/-- A line of this kind is refused, or its other targets can be opened. -/
lemma refuses_or_opens (m : Machine) (hscript : line.script? = some name) :
    (∃ f n, Refuses line m f n) ∨
      name ≠ [] ∧ ∃ rs n, line.targets.openAll m.resolve m = (none, rs, n) := by
  by_cases hname : name = []
  · subst hname
    exact .inl ⟨_, _, .nameless hscript⟩
  · rcases hopen : line.targets.openAll m.resolve m with ⟨_ | f, rs, n⟩
    · exact .inr ⟨hname, rs, n, rfl⟩
    · exact .inl ⟨f, n, .target (by simpa [hscript] using hname) hopen⟩

/-- A refused line has no name of a script, or a target that cannot be opened. -/
lemma Refuses.not_opens {f : RedirectionFault} {n : Machine} (h : Refuses line m f n)
    (hscript : line.script? = some name) : name = [] ∨ ¬ Opens m line.targets := by
  cases h with
  | nameless hnameless =>
    rw [hscript] at hnameless
    exact .inl (Option.some.inj hnameless)
  | target hnamed hopen =>
    refine .inr ?_
    rintro ⟨rs', n', hopens⟩
    rw [hopen] at hopens
    cases hopens

/-- Opening the other targets and leading the streams to them leaves the working directory. -/
lemma resolve_attach {rs rs' : Redirects} {n : Machine}
    (h : rs.openAll m.resolve m = (none, rs', n)) (name : Bytes) :
    (rs'.attach n).2.resolve name = m.resolve name := by
  obtain ⟨_, _, _, _, _, _, _, _, rfl, -⟩ := exchange_openAll h
  rfl

/-- With a name that stands for a script, the script is run or the line fails. -/
lemma runsScript_or_fails (hscopes : m.shell.scopes ≠ []) {rs : Redirects} {n₁ : Machine}
    (hscript : line.script? = some name) (hname : name ≠ [])
    (hopen : line.targets.openAll m.resolve m = (none, rs, n₁))
    (hreserved : name ≠ Source.consoleName) (context : Option Context) (location : Location) :
    RunsScript m line context location name ∨
      ∃ m', FailsToRun m line context location name m' ∧ m'.isErrored = true := by
  obtain ⟨hwords, r, hinput, rfl, htargets⟩ := script?_eq_some hscript
  have hone := startsOne_of_input hwords hinput hname (htargets ▸ hopen) context location
  rw [Source.ofPath_of_ne hname hreserved] at hone
  have hresolve := resolve_attach hopen r.name
  rcases hfile : (rs.attach n₁).2.openFile (.open (m.resolve r.name)) with ⟨f | h, n⟩
  · -- the file cannot be opened: the invocation fails before it reads anything
    have hmissing := openSource_of_missing (hresolve ▸ hfile)
    refine .inr ⟨_, .missing hopen hfile fun fuel => ?_, ?_⟩
    · show handleSplit (invoke (fuel + 1)) context line location m = _
      have hinvoke := invocation_of_unopened (invoke fuel) fuel context hmissing []
      have hrun : handleSplit (invoke (fuel + 1)) context line location m = _ :=
        hone (invoke (fuel + 1))
      rw [hrun, invoke, hinvoke]
      rfl
    · rw [isErrored_detach]
      refine isErrored_setErrored ?_ true
      have hopened : n.shell.scopes = (rs.attach n₁).2.shell.scopes := by
        have hscopes := (exchange_openFile (rs.attach n₁).2 (.open (m.resolve r.name))).restores
        rw [hfile] at hscopes
        exact hscopes.scopes
      rw [(Exchange.inputOutput.writeLine _ _ n).restores.scopes, hopened]
      exact fun hnone => hscopes ((scopes_openAll hopen).symm.trans hnone)
  · exact .inl ⟨_, _, h, n, hone, hfile, openSource_of_opened (hresolve ▸ hfile), rfl⟩

/-- **Lines that redirect their input run scripts.**  A line without words that redirects its
input opens no console, and runs the file at the resolved name as a script or fails with a
diagnostic and a mark: this holds of all names but the reserved one, and of that one, too, if
another target of the line cannot be opened. -/
theorem input_line_spares_console_iff (hscopes : m.shell.scopes ≠ [])
    (hscript : line.script? = some name) (context : Option Context) (location : Location) :
    (¬ StartsConsole m line context location ∧
      (RunsScript m line context location name ∨
        ∃ m', FailsToRun m line context location name m' ∧ m'.isErrored = true)) ↔
      ¬ (name = Source.consoleName ∧ Opens m line.targets) := by
  have hstays : line.words.head? ≠ some "exit" := by simp [(script?_eq_some hscript).1]
  rcases refuses_or_opens m hscript with ⟨f, n, hrefuses⟩ | ⟨hname, rs, n₁, hopen⟩
  · have hrun : ∀ invoke, handleSplit invoke context line location m =
        some (.goOn, fail location f.message n) :=
      fun _ => handleSplit_of_refuses hstays hrefuses
    refine iff_of_true ⟨?_, .inr ⟨_, .refused hrefuses hrun, ?_⟩⟩ ?_
    · rintro ⟨inner, definitions, n, finish, hone⟩
      exact StartsOne.not_of_forall hrun hone
    · exact isErrored_fail_of_refuses hrefuses hscopes location
    · rintro ⟨rfl, hopens⟩
      exact (hrefuses.not_opens hscript).elim (by decide) fun hclosed => hclosed hopens
  · have hone : ∃ n finish, StartsOne (fun invoke => handleSplit invoke context line location) m
        context (.ofPath name) [] n finish := by
      obtain ⟨hwords, r, hinput, rfl, htargets⟩ := script?_eq_some hscript
      exact ⟨_, _, startsOne_of_input hwords hinput hname (htargets ▸ hopen) context location⟩
    obtain ⟨n, finish, hone⟩ := hone
    by_cases hreserved : name = Source.consoleName
    · refine iff_of_false (fun hspares => hspares.1 ?_) fun h => h ⟨hreserved, rs, n₁, hopen⟩
      rw [hreserved] at hone
      exact ⟨context, [], n, finish, hone⟩
    · refine iff_of_true ⟨?_, ?_⟩ fun h => hreserved h.1
      · rintro ⟨inner, definitions, n', finish', hconsole⟩
        rw [Source.ofPath_of_ne hname hreserved] at hone
        cases hone.source_eq hconsole
      · exact runsScript_or_fails hscopes hscript hname hopen hreserved context location

end Cases

/-- A name that resolves to the same path as the reserved one is the name of a script. -/
theorem input_line_spares_console_iff_resolved :
    let m : Machine :=
      { shell := { scopes := [{}] }
        host := { store := { entries := [("/<telnet>", .file "exit"), ("/", .directory)] } } }
    let line : Line := ⟨[], [⟨0, .read, "./<telnet>"⟩]⟩
    m.shell.scopes ≠ [] ∧ line.script? = some "./<telnet>" ∧
      m.resolve "./<telnet>" = m.resolve Source.consoleName ∧
      ¬ StartsConsole m line none {} ∧ (RunsScript m line none {} "./<telnet>" ∨
        ∃ m', FailsToRun m line none {} "./<telnet>" m' ∧ m'.isErrored = true) := by
  intro m line
  have hscopes : m.shell.scopes ≠ [] := by simp [m]
  have hscript : line.script? = some ("./<telnet>" : Bytes) := rfl
  have hreserved : ("./<telnet>" : Bytes) ≠ Source.consoleName := by decide
  exact ⟨hscopes, hscript, by decide +kernel,
    (input_line_spares_console_iff hscopes hscript none {}).2 fun h => hreserved h.1⟩

/-- The reserved name opens the console, which prompts for a line, although there is a file of
that name; nothing is reported. -/
theorem reserved_name_opens_console :
    let m : Machine :=
      { shell := { scopes := [{}] }
        host := { store := { entries := [("/<telnet>", .file "exit"), ("/", .directory)] } } }
    let line : Line := ⟨[], [⟨0, .read, Source.consoleName⟩]⟩
    m.reading "< '<telnet>'" = .line line ∧ line.script? = some Source.consoleName ∧
      StartsConsole m line none {} ∧ ¬ RunsScript m line none {} Source.consoleName ∧
      ∃ m', handleSplit (invoke 2) none line {} m = some (.goOn, m') ∧
        m'.host.traffic = [⟨0, 1, "iocsh> "⟩] ∧ m'.isErrored = false := by
  intro m line
  have hopen : ((Redirects.ofList line.redirections).without 0).openAll m.resolve m =
      (none, [], m) := rfl
  have hwords : line.words = [] := rfl
  have hinput : (Redirects.ofList line.redirections).input? =
      some ⟨0, .read, Source.consoleName⟩ := rfl
  have hone := startsOne_of_input hwords hinput (by decide) hopen none {}
  have hconsole : StartsConsole m line none {} := ⟨_, _, _, _, hone⟩
  have hrun : (handleSplit (invoke 2) none line {} m).any (fun p => p.1 = .goOn ∧
      p.2.host.traffic = [⟨0, 1, "iocsh> "⟩] ∧ p.2.isErrored = false) = true := by
    decide +kernel
  obtain ⟨⟨c, m'⟩, hhandled, hwritten⟩ := (Option.any_eq_true _ _).1 hrun
  obtain ⟨rfl, htraffic, hunmarked⟩ := of_decide_eq_true hwritten
  refine ⟨by decide +kernel, rfl, hconsole, ?_, m', hhandled, htraffic, hunmarked⟩
  rintro ⟨n, finish, h, n₁, hscript, -⟩
  cases hone.source_eq hscript

end Interpreter

end ConsoleShell
