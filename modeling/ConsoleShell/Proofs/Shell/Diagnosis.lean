/-
What is reported for a line, and the mark that the line failed.

Handling a line can go wrong in several places: a reference cannot be replaced, the line cannot be
split, a target cannot be opened, no command has the name, the arguments do not fit, the command
fails, or a target cannot be closed.  Each of these is reported for the line.  This file goes
through the handling of a line once and says for each way through it what is reported and which
machine is left.  All of them mark the line, except that a target which cannot be closed is
reported after the mark was decided, and leaves it as it is.
-/
import ConsoleShell.Proofs.Shell.Containment

namespace ConsoleShell

/-! ### Troubles -/

/-- What goes wrong with a line and is reported for it. -/
inductive Trouble where
  /-- A reference cannot be replaced. -/
  | reference (fault : Substitution.Error)
  /-- The line cannot be split. -/
  | malformed (fault : Line.Fault)
  /-- A target cannot be opened. -/
  | target (fault : RedirectionFault)
  /-- No command has the name. -/
  | unknown (name : Bytes)
  /-- The words do not fit the declaration of the command. -/
  | arguments (fault : Argument.Fault)
  /-- The command failed. -/
  | command (failure : Failure)
  /-- Targets cannot be closed. -/
  | closing (faults : List ClosingFault)
  deriving DecidableEq, Repr

namespace Trouble

/-- The diagnostic for a trouble. -/
def message : Trouble → Bytes
  | .reference f => f.message
  | .malformed f => f.message
  | .target f => f.message
  | .unknown name => ("Command " : Bytes) ++ name ++ " not found."
  | .arguments f => f.message
  | .command f => f.message
  | .closing faults => Bytes.join [Ascii.newline] (faults.map (·.message))

/-- The trouble with the targets of a line that is done. -/
def ofClosing : List ClosingFault → List Trouble
  | [] => []
  | f :: faults => [.closing (f :: faults)]

lemma ofClosing_of_ne_nil {faults : List ClosingFault} (h : faults ≠ []) :
    ofClosing faults = [.closing faults] := by
  cases faults with
  | nil => exact absurd rfl h
  | cons f faults => rfl

end Trouble

/-! ### What a line comes to before anything is run for it -/

/-- What a line of text comes to. -/
inductive Reading where
  /-- Nothing; it is blank or a comment. -/
  | skip
  /-- The end of the invocation. -/
  | leave
  /-- It cannot be read. -/
  | trouble (t : Trouble)
  /-- Words and redirections. -/
  | line (line : Line)
  deriving DecidableEq, Repr

/-- What a line comes to whose references have been replaced. -/
def Reading.ofText (text : Bytes) : Reading :=
  if text.trimStart.isEmpty || Interpreter.isComment text.trimStart then .skip
  else match Line.split text with
    | .error .empty => .leave
    | .error f => .trouble (.malformed f)
    | .ok l => if l.words.head? = some "exit" then .leave else .line l

/-- The name of the script that a line without words redirects its input from. -/
def Line.script? (line : Line) : Option Bytes :=
  if line.words.isEmpty then (Redirects.ofList line.redirections).input?.map Redirection.name
  else none

/-- The redirections whose targets are opened for a line: all but that of the input of a script. -/
def Line.targets (line : Line) : Redirects :=
  let rs := Redirects.ofList line.redirections
  if line.script?.isSome then rs.without 0 else rs

namespace Machine

/-- The text of a line with its references replaced. -/
def expand (m : Machine) (raw : Bytes) : Except Substitution.Error Bytes :=
  Substitution.expandDefined ((m.shell.definitions.getD {}).lookup m.host.environment.find?) raw

/-- What a line comes to. -/
def reading (m : Machine) (raw : Bytes) : Reading :=
  if Interpreter.isComment raw.trimStart then .skip
  else match m.expand raw with
    | .error f => .trouble (.reference f)
    | .ok text => .ofText text

/-- The machine after a line has been shown, if it is one that a script shows. -/
def shown (m : Machine) (raw : Bytes) (script : Bool) : Machine :=
  let silent := Interpreter.isSilentComment
  if Interpreter.isComment raw.trimStart then
    if script && !silent raw.trimStart then m.writeLine .standard raw else m
  else match m.expand raw with
    | .error _ => m
    | .ok text =>
      if script && !text.isEmpty && !silent text.trimStart then m.writeLine .standard text else m

lemma exchange_shown (m : Machine) (raw : Bytes) (script : Bool) :
    Exchange m (m.shown raw script) := by
  have hline : ∀ text, Exchange m (m.writeLine .standard text) :=
    fun text => Exchange.inputOutput.writeLine _ text m
  unfold shown
  dsimp only
  split
  · split
    · exact hline raw
    · exact .refl m
  · split
    · exact .refl m
    · split
      · exact hline _
      · exact .refl m

@[simp] lemma shown_false (m : Machine) (raw : Bytes) : m.shown raw false = m := by
  simp only [shown, Bool.false_and, Bool.false_eq_true, if_false, ite_eq_left_iff]
  intro _
  split <;> rfl

end Machine

namespace Interpreter

open Machine

section Reading

variable (invoke : Invoke) (context : Option Context) (location : Location)

/-- What is done about a reading. -/
def act : Reading → Machine → Option (Continuation × Machine)
  | .skip, m => some (.goOn, m)
  | .leave, m => some (.leave, m)
  | .trouble t, m => some (.goOn, fail location t.message m)
  | .line line, m => handleSplit invoke context line location m

lemma handleShown_apply (text : Bytes) (m : Machine) :
    handleShown invoke context text location m =
      act invoke context location (.ofText text) m := by
  rw [handleShown, Reading.ofText]
  cases htext : text.trimStart.isEmpty || isComment text.trimStart with
  | true => rfl
  | false =>
    cases hsplit : Line.split text with
    | error f => cases f <;> rfl
    | ok line =>
      simp only [Bool.false_eq_true, if_false]
      split
      · rename_i hexit
        rw [handleSplit_exit hexit]
        rfl
      · rfl

/-- A line is shown, and then its reading is acted on. -/
lemma handle_apply (raw : Bytes) (script : Bool) (m : Machine) :
    handle invoke context raw location script m =
      act invoke context location (m.reading raw) (m.shown raw script) := by
  unfold handle reading shown
  dsimp only
  cases hcomment : isComment raw.trimStart with
  | true =>
    rw [if_pos rfl, if_pos rfl, if_pos rfl]
    cases script && !isSilentComment raw.trimStart <;> rfl
  | false =>
    rw [if_neg Bool.false_ne_true, if_neg Bool.false_ne_true, if_neg Bool.false_ne_true,
      ShellM.get_bind]
    show (match m.expand raw with | .error f => _ | .ok line => _ :
      ShellM FileStore Continuation) m = _
    cases m.expand raw with
    | error f => rfl
    | ok text =>
      dsimp only
      rw [← handleShown_apply]
      unfold handleExpanded
      cases script && !text.isEmpty && !isSilentComment text.trimStart <;> rfl

end Reading

/-! ### What is done for a line with words and redirections -/

section Lines

variable (invoke : Invoke) (context : Option Context) (line : Line) (location : Location)

/-- Not all targets of a line can be opened: the fault, and the machine that is left. -/
inductive Refuses (m : Machine) : RedirectionFault → Machine → Prop
  /-- The script has no name. -/
  | nameless (hscript : line.script? = some []) : Refuses m ⟨[], .notExist⟩ m
  | target {f : RedirectionFault} {rs : Redirects} {n : Machine} (hscript : line.script? ≠ some [])
      (hopen : line.targets.openAll m.resolve m = (some f, rs, n)) : Refuses m f n

/-- What is done for the words of a line whose targets are open: what is reported, and the
redirections and the machine that are left. -/
inductive Attempts (words : List Bytes) (rs : Redirects) (m : Machine) :
    List Trouble → Redirects → Machine → Prop
  | wordless (hwords : words = []) : Attempts words rs m [] rs m
  | unknown {name : Bytes} {rest : List Bytes} (hwords : words = name :: rest)
      (hfind : m.host.table.findCommand? name = none) :
      Attempts words rs m [.unknown name] rs
        ((report location (Trouble.unknown name).message (m.setErrored true)).record
          (.unknownCommand words))
  | rejected {name : Bytes} {rest : List Bytes} {c : Command CommandBody} {f : Argument.Fault}
      (hwords : words = name :: rest) (hfind : m.host.table.findCommand? name = some c)
      (hbind : Argument.bind m.host.table.handle c.signature words = .error f) :
      Attempts words rs m [.arguments f] rs
        ((report location f.message (m.setErrored true)).record
          (.invalidInvocation words f.message))
  | done {name : Bytes} {rest : List Bytes} {c : Command CommandBody} {args : Arguments}
      {n : Machine} (hwords : words = name :: rest)
      (hfind : m.host.table.findCommand? name = some c)
      (hbind : Argument.bind m.host.table.handle c.signature words = .ok args)
      (hcall : call invoke c.body args (called words (attached rs (m.setErrored true))) =
        some (none, n)) :
      Attempts words rs m [] (rs.attach (m.setErrored true)).1
        (reattached (m.setErrored true).shell.attachments n)
  | failed {name : Bytes} {rest : List Bytes} {c : Command CommandBody} {args : Arguments}
      {f : Failure} {n : Machine} (hwords : words = name :: rest)
      (hfind : m.host.table.findCommand? name = some c)
      (hbind : Argument.bind m.host.table.handle c.signature words = .ok args)
      (hcall : call invoke c.body args (called words (attached rs (m.setErrored true))) =
        some (some f, n)) :
      Attempts words rs m [.command f] (rs.attach (m.setErrored true)).1
        (reattached (m.setErrored true).shell.attachments
          (((report location f.message n).record (.invalidInvocation words f.message)).setErrored
            true))

/-- What is done for a line between opening and closing its targets: what is reported, and the
redirections and the machine that are left. -/
inductive Performs (m : Machine) : List Trouble → Redirects → Machine → Prop
  | script {name : Bytes} {rs : Redirects} {n₁ n : Machine} (hscript : line.script? = some name)
      (hname : name ≠ []) (hopen : line.targets.openAll m.resolve m = (none, rs, n₁))
      (hrun : runMarked invoke context (.ofPath name) (rs.attach n₁).2 = some ((), n)) :
      Performs m [] (rs.attach n₁).1 n
  | command {rs rs' : Redirects} {n₁ n : Machine} {ts : List Trouble}
      (hscript : line.script? = none)
      (hopen : line.targets.openAll m.resolve m = (none, rs, n₁))
      (hattempts : Attempts invoke location line.words rs n₁ ts rs' n) : Performs m ts rs' n

end Lines

/-- How a line is handled: what is reported for it, what it says about the lines after it, and
the machine that it leaves. -/
inductive Handles (invoke : Invoke) (context : Option Context) (raw : Bytes) (location : Location)
    (script : Bool) (m : Machine) : List Trouble → Continuation → Machine → Prop
  | skipped (hreading : m.reading raw = .skip) :
      Handles invoke context raw location script m [] .goOn (m.shown raw script)
  | left (hreading : m.reading raw = .leave) :
      Handles invoke context raw location script m [] .leave (m.shown raw script)
  | unread {t : Trouble} (hreading : m.reading raw = .trouble t) :
      Handles invoke context raw location script m [t] .goOn
        (fail location t.message (m.shown raw script))
  | unopened {line : Line} {f : RedirectionFault} {n : Machine}
      (hreading : m.reading raw = .line line) (hrefuses : Refuses line (m.shown raw script) f n) :
      Handles invoke context raw location script m [.target f] .goOn (fail location f.message n)
  | performed {line : Line} {ts : List Trouble} {rs : Redirects} {n : Machine}
      (hreading : m.reading raw = .line line)
      (hperforms : Performs invoke context line location (m.shown raw script) ts rs n) :
      Handles invoke context raw location script m (ts ++ Trouble.ofClosing (rs.detach n).1)
        .goOn (detach rs location n)

/-! ### Every handled line is handled in one of these ways -/

section Inversion

variable {invoke : Invoke} {context : Option Context} {line : Line} {location : Location}
  {m m' : Machine}

lemma attempts_of_dispatchOpen {words : List Bytes} {rs rs' : Redirects}
    (h : dispatchOpen invoke words rs location m = some (rs', m')) :
    ∃ ts, Attempts invoke location words rs m ts rs' m' := by
  cases words with
  | nil =>
    obtain ⟨rfl, rfl⟩ := ShellM.pure_eq_some h
    exact ⟨[], .wordless rfl⟩
  | cons name words =>
    rcases dispatchOpen_cases h with
      ⟨hfind, rfl, rfl⟩ | ⟨c, f, hfind, hbind, rfl, rfl⟩ | ⟨c, args, hfind, hbind, h⟩
    · exact ⟨_, .unknown rfl hfind⟩
    · exact ⟨_, .rejected rfl hfind hbind⟩
    · rw [callAttached_apply, callMarked_apply, Option.map_map] at h
      obtain ⟨⟨_ | f, n⟩, hcall, heq⟩ := Option.map_eq_some_iff.1 h
      · cases heq
        exact ⟨_, .done rfl hfind hbind hcall⟩
      · cases heq
        exact ⟨_, .failed rfl hfind hbind hcall⟩

lemma script?_eq_some {name : Bytes} (h : line.script? = some name) :
    line.words = [] ∧ ∃ r, (Redirects.ofList line.redirections).input? = some r ∧ r.name = name ∧
      line.targets = (Redirects.ofList line.redirections).without 0 := by
  have htargets : line.targets = (Redirects.ofList line.redirections).without 0 := by
    simp [Line.targets, h]
  rw [Line.script?] at h
  split at h
  · rename_i hwords
    obtain ⟨r, hinput, hname⟩ := Option.map_eq_some_iff.1 h
    exact ⟨List.isEmpty_iff.1 hwords, r, hinput, hname, htargets⟩
  · cases h

lemma script?_eq_none (h : line.script? = none) :
    (line.words = [] → (Redirects.ofList line.redirections).input? = none) ∧
      line.targets = Redirects.ofList line.redirections := by
  refine ⟨fun hwords => ?_, by simp [Line.targets, h]⟩
  simpa [Line.script?, hwords] using h

/-- A line with words and redirections that stays in the invocation. -/
lemma performs_of_handleSplit {c : Continuation} (hstays : line.words.head? ≠ some "exit")
    (h : handleSplit invoke context line location m = some (c, m')) : c = .goOn ∧
      ((∃ f n, Refuses line m f n ∧ m' = fail location f.message n) ∨
        ∃ ts rs n, Performs invoke context line location m ts rs n ∧
          m' = detach rs location n) := by
  cases hscript : line.script? with
  | none =>
    -- there is no script to run, and the words are dispatched
    obtain ⟨hwords, htargets⟩ := script?_eq_none hscript
    rw [handleSplit_command hwords hstays] at h
    obtain ⟨⟨u, n'⟩, hdispatch, heq⟩ := Option.map_eq_some_iff.1 h
    cases heq
    refine ⟨rfl, ?_⟩
    rcases hopen : (Redirects.ofList line.redirections).openAll m.resolve m with ⟨_ | f, rs, n⟩
    · rw [dispatch_apply invoke hopen] at hdispatch
      obtain ⟨⟨rs', n'⟩, hrun, heq⟩ := Option.map_eq_some_iff.1 hdispatch
      cases heq
      obtain ⟨ts, hattempts⟩ := attempts_of_dispatchOpen hrun
      exact .inr ⟨ts, rs', n', .command hscript (htargets ▸ hopen) hattempts, rfl⟩
    · rw [dispatch_refused invoke hopen] at hdispatch
      cases hdispatch
      exact .inl ⟨f, n, .target (by simp [hscript]) (htargets ▸ hopen), rfl⟩
  | some name =>
    obtain ⟨hwords, r, hinput, rfl, htargets⟩ := script?_eq_some hscript
    rw [handleSplit_script hwords hinput] at h
    obtain ⟨⟨u, n'⟩, hnested, heq⟩ := Option.map_eq_some_iff.1 h
    cases heq
    refine ⟨rfl, ?_⟩
    by_cases hname : r.name = []
    · rw [hname] at hscript hnested
      cases hnested
      exact .inl ⟨_, m, .nameless hscript, rfl⟩
    rcases hopen : ((Redirects.ofList line.redirections).without 0).openAll m.resolve m with
      ⟨_ | f, rs, n⟩
    · rw [nested_apply invoke hname hopen] at hnested
      obtain ⟨⟨u, n'⟩, hrun, heq⟩ := Option.map_eq_some_iff.1 hnested
      cases heq
      exact .inr ⟨[], _, n', .script hscript hname (htargets ▸ hopen) hrun, rfl⟩
    · rw [nested_refused invoke hname hopen] at hnested
      cases hnested
      exact .inl ⟨f, n, .target (by simpa [hscript] using hname) (htargets ▸ hopen), rfl⟩

/-- A line that is read as words and redirections stays in the invocation. -/
lemma stays_of_reading {raw : Bytes} (h : m.reading raw = .line line) :
    line.words.head? ≠ some "exit" := by
  rw [reading] at h
  split at h
  · cases h
  · split at h
    · cases h
    · rw [Reading.ofText] at h
      split at h
      · cases h
      · split at h
        · cases h
        · cases h
        · split at h
          · cases h
          · rename_i hstays
            cases h
            exact hstays

/-- A line that is handled is handled in one of the ways that there are. -/
lemma exists_handles {raw : Bytes} {script : Bool} {c : Continuation}
    (h : handle invoke context raw location script m = some (c, m')) :
    ∃ ts, Handles invoke context raw location script m ts c m' := by
  rw [handle_apply] at h
  cases hreading : m.reading raw with
  | skip =>
    rw [hreading] at h
    cases h
    exact ⟨_, .skipped hreading⟩
  | leave =>
    rw [hreading] at h
    cases h
    exact ⟨_, .left hreading⟩
  | trouble t =>
    rw [hreading] at h
    cases h
    exact ⟨_, .unread hreading⟩
  | line line =>
    rw [hreading] at h
    obtain ⟨rfl, ⟨f, n, hrefuses, rfl⟩ | ⟨ts, rs, n, hperforms, rfl⟩⟩ :=
      performs_of_handleSplit (stays_of_reading hreading) h
    · exact ⟨_, .unopened hreading hrefuses⟩
    · exact ⟨_, .performed hreading hperforms⟩

/-! ### Each of these ways is taken -/

lemma dispatchOpen_of_attempts {words : List Bytes} {rs rs' : Redirects} {ts : List Trouble}
    (h : Attempts invoke location words rs m ts rs' m') :
    dispatchOpen invoke words rs location m = some (rs', m') := by
  cases h with
  | wordless hwords =>
    subst hwords
    rfl
  | unknown hwords hfind =>
    subst hwords
    exact dispatchOpen_unknown invoke hfind _ location
  | rejected hwords hfind hbind =>
    subst hwords
    exact dispatchOpen_rejected invoke hfind hbind _ location
  | done hwords hfind hbind hcall =>
    subst hwords
    rw [dispatchOpen_apply invoke hfind hbind, callAttached_apply, callMarked_apply, hcall]
    rfl
  | failed hwords hfind hbind hcall =>
    subst hwords
    rw [dispatchOpen_apply invoke hfind hbind, callAttached_apply, callMarked_apply, hcall]
    rfl

lemma handleSplit_of_refuses {f : RedirectionFault} {n : Machine}
    (hstays : line.words.head? ≠ some "exit") (h : Refuses line m f n) :
    handleSplit invoke context line location m = some (.goOn, fail location f.message n) := by
  cases hscript : line.script? with
  | none =>
    obtain ⟨hwords, htargets⟩ := script?_eq_none hscript
    cases h with
    | nameless hnameless => simp [hscript] at hnameless
    | target _ hopen =>
      rw [htargets] at hopen
      rw [handleSplit_command hwords hstays, dispatch_refused invoke hopen]
      rfl
  | some name =>
    obtain ⟨hwords, r, hinput, rfl, htargets⟩ := script?_eq_some hscript
    rw [handleSplit_script hwords hinput]
    cases h with
    | nameless hnameless =>
      have hname : r.name = [] := by simpa [hscript] using hnameless
      rw [hname, nested_nameless]
      rfl
    | target hnamed hopen =>
      have hname : r.name ≠ [] := by simpa [hscript] using hnamed
      rw [htargets] at hopen
      rw [nested_refused invoke hname hopen]
      rfl

lemma handleSplit_of_performs {ts : List Trouble} {rs : Redirects} {n : Machine}
    (hstays : line.words.head? ≠ some "exit")
    (h : Performs invoke context line location m ts rs n) :
    handleSplit invoke context line location m = some (.goOn, detach rs location n) := by
  cases h with
  | @script name rs n₁ n hscript hname hopen hrun =>
    obtain ⟨hwords, r, hinput, rfl, htargets⟩ := script?_eq_some hscript
    rw [htargets] at hopen
    rw [handleSplit_script hwords hinput, nested_apply invoke hname hopen, hrun]
    rfl
  | command hscript hopen hattempts =>
    obtain ⟨hwords, htargets⟩ := script?_eq_none hscript
    rw [htargets] at hopen
    rw [handleSplit_command hwords hstays, dispatch_apply invoke hopen,
      dispatchOpen_of_attempts hattempts]
    rfl

/-- The ways in which a line is handled are those of `Handles`. -/
lemma handle_eq_some_iff {raw : Bytes} {script : Bool} {c : Continuation} :
    handle invoke context raw location script m = some (c, m') ↔
      ∃ ts, Handles invoke context raw location script m ts c m' := by
  refine ⟨exists_handles, ?_⟩
  rintro ⟨ts, h⟩
  rw [handle_apply]
  cases h with
  | skipped hreading => rw [hreading]; rfl
  | left hreading => rw [hreading]; rfl
  | unread hreading => rw [hreading]; rfl
  | unopened hreading hrefuses =>
    rw [hreading]
    exact handleSplit_of_refuses (stays_of_reading hreading) hrefuses
  | performed hreading hperforms =>
    rw [hreading]
    exact handleSplit_of_performs (stays_of_reading hreading) hperforms

end Inversion

/-! ### Marks -/

section Marks

variable {m : Machine} {location : Location}

lemma isErrored_eq_of_scopes {m n : Machine} (h : n.shell.scopes = m.shell.scopes) :
    n.isErrored = m.isErrored := by
  rw [isErrored, isErrored, h]

lemma isErrored_fail (hscopes : m.shell.scopes ≠ []) (message : Bytes) :
    (fail location message m).isErrored = true := by
  refine isErrored_setErrored ?_ true
  rwa [(Exchange.inputOutput.report _ _ _).restores.scopes]

/-- A line is marked when one of its targets is refused. -/
lemma isErrored_fail_of_refuses {line : Line} {f : RedirectionFault} {n : Machine}
    (h : Refuses line m f n) (hscopes : m.shell.scopes ≠ []) (location : Location) :
    (fail location f.message n).isErrored = true := by
  refine isErrored_fail ?_ _
  cases h with
  | nameless _ => exact hscopes
  | target _ hopen => rwa [scopes_openAll hopen]

lemma isErrored_detach (rs : Redirects) (location : Location) (m : Machine) :
    (detach rs location m).isErrored = m.isErrored :=
  isErrored_eq_of_scopes (scopes_detach rs location m)

/-- What is reported and recorded leaves the mark alone. -/
lemma scopes_record_report (location : Location) (message : Bytes) (e : Event) (m : Machine) :
    ((report location message m).record e).shell.scopes = m.shell.scopes := by
  rw [(exchange_record _ e).restores.scopes, (Exchange.inputOutput.report _ _ _).restores.scopes]

variable {invoke : Invoke} (hinvoke : Restoring invoke)
include hinvoke

lemma scopes_ne_nil_of_call {body : CommandBody} {args : Arguments} {words : List Bytes}
    {rs : Redirects} {failure : Option Failure} {n : Machine} (hscopes : m.shell.scopes ≠ [])
    (h : call invoke body args (called words (attached rs (m.setErrored true))) =
      some (failure, n)) : n.shell.scopes ≠ [] := by
  obtain ⟨s, rest, hcons⟩ := List.exists_cons_of_ne_nil hscopes
  have hattached : (attached rs (m.setErrored true)).shell.scopes = _ :=
    scopes_setErrored hcons true
  rw [ne_eq, (maintains_call hinvoke body args _ _ _ h).scopes_eq_nil_iff,
    scopes_called hattached words]
  simp

/-- Whatever is reported for the words of a line marks the line. -/
lemma Attempts.isErrored {words : List Bytes} {rs rs' : Redirects} {ts : List Trouble}
    {n : Machine} (h : Attempts invoke location words rs m ts rs' n)
    (hscopes : m.shell.scopes ≠ []) (hts : ts ≠ []) : n.isErrored = true := by
  have hmarked := isErrored_setErrored hscopes true
  cases h with
  | wordless hwords => exact absurd rfl hts
  | unknown hwords hfind =>
    rwa [isErrored_eq_of_scopes (scopes_record_report _ _ _ _)]
  | rejected hwords hfind hbind =>
    rwa [isErrored_eq_of_scopes (scopes_record_report _ _ _ _)]
  | done hwords hfind hbind hcall => exact absurd rfl hts
  | @failed name rest c args f n hwords hfind hbind hcall =>
    refine isErrored_setErrored (m := (report location f.message n).record _) ?_ true
    rw [scopes_record_report]
    exact scopes_ne_nil_of_call hinvoke hscopes hcall

/-- Whatever is reported between opening and closing the targets of a line marks the line. -/
lemma Performs.isErrored {context : Option Context} {line : Line} {rs : Redirects}
    {ts : List Trouble} {n : Machine} (h : Performs invoke context line location m ts rs n)
    (hscopes : m.shell.scopes ≠ []) (hts : ts ≠ []) : n.isErrored = true := by
  cases h with
  | script hscript hname hopen hrun => exact absurd rfl hts
  | command hscript hopen hattempts =>
    exact hattempts.isErrored hinvoke (by rwa [scopes_openAll hopen]) hts

end Marks

/-- All that is reported for a line is that targets cannot be closed, and neither its command nor
its script has marked the line. -/
inductive LosesTarget (invoke : Invoke) (context : Option Context) (raw : Bytes)
    (location : Location) (script : Bool) (m : Machine) : List Trouble → Machine → Prop
  | intro {line : Line} {rs : Redirects} {n : Machine} (hreading : m.reading raw = .line line)
      (hperforms : Performs invoke context line location (m.shown raw script) [] rs n)
      (hunmarked : n.isErrored = false) (hfaults : (rs.detach n).1 ≠ []) :
      LosesTarget invoke context raw location script m [.closing (rs.detach n).1]
        (detach rs location n)

/-- **What is reported for a line marks it.**  Every line that is handled inside an invocation is
handled in one of the ways of `Handles`, which list what is reported for it; and a line for which
something is reported has the mark when it is done, unless it is lost: the only thing reported is
that targets cannot be closed, after a command or a script that has not marked the line. -/
theorem reported_line_is_marked_iff {m m' : Machine} (hscopes : m.shell.scopes ≠ []) {fuel : Nat}
    {context : Option Context} {raw : Bytes} {location : Location} {script : Bool}
    {c : Continuation}
    (hrun : handle (invoke fuel) context raw location script m = some (c, m')) :
    (∃ ts, Handles (invoke fuel) context raw location script m ts c m') ∧
    ∀ ts, Handles (invoke fuel) context raw location script m ts c m' →
      ((ts ≠ [] → m'.isErrored = true) ↔
        ¬ LosesTarget (invoke fuel) context raw location script m ts m') := by
  refine ⟨exists_handles hrun, fun ts h => ?_⟩
  have hshown : (m.shown raw script).shell.scopes ≠ [] := by
    rwa [(m.exchange_shown raw script).restores.scopes]
  constructor
  · -- closing the targets of a lost line does not set the mark that is missing
    rintro hmarked ⟨hreading, hperforms, hunmarked, hfaults⟩
    have hdetached := hmarked (by simp)
    rw [isErrored_detach, hunmarked] at hdetached
    cases hdetached
  · intro hkept hts
    cases h with
    | skipped hreading => exact absurd rfl hts
    | left hreading => exact absurd rfl hts
    | unread hreading => exact isErrored_fail hshown _
    | unopened hreading hrefuses => exact isErrored_fail_of_refuses hrefuses hshown location
    | @performed line ts rs n hreading hperforms =>
      rw [isErrored_detach]
      by_cases hreported : ts = []
      · -- only the targets are left to report
        subst hreported
        have hfaults : (rs.detach n).1 ≠ [] := by
          rintro hnone
          simp [hnone, Trouble.ofClosing] at hts
        cases herrored : n.isErrored with
        | true => rfl
        | false =>
          refine absurd ?_ hkept
          rw [List.nil_append, Trouble.ofClosing_of_ne_nil hfaults]
          exact .intro hreading hperforms herrored hfaults
      · exact hperforms.isErrored (restoring_invoke fuel) hshown hreported

/-- No command has the name of a line, and its target cannot be closed. -/
theorem reported_line_is_marked_iff_unknown :
    let m : Machine :=
      { shell := { scopes := [{ policy := .stop }] }
        host := { table := CommandTable.control, failing := ["/f"]
                  store := { entries := [("/", .directory)] } } }
    m.shell.scopes ≠ [] ∧
      ∃ faults m', handle (invoke 0) none "no >f" {} false m = some (.goOn, m') ∧
        Handles (invoke 0) none "no >f" {} false m [.unknown "no", .closing faults] .goOn m' ∧
        m'.isErrored = true := by
  intro m
  have hscopes : m.shell.scopes ≠ [] := by simp [m]
  have hreading : m.reading "no >f" = .line ⟨["no"], [⟨1, .write, "f"⟩]⟩ := by decide +kernel
  have hperforms : ∃ rs n, Performs (invoke 0) none ⟨["no"], [⟨1, .write, "f"⟩]⟩ {}
      (m.shown "no >f" false) [.unknown "no"] rs n ∧ (rs.detach n).1 ≠ [] := by
    rw [shown_false]
    exact ⟨_, _, .command rfl rfl (.unknown rfl rfl), by decide +kernel⟩
  obtain ⟨rs, n, hperforms, hfaults⟩ := hperforms
  have hhandles := Handles.performed hreading hperforms
  rw [Trouble.ofClosing_of_ne_nil hfaults] at hhandles
  have hrun := handle_eq_some_iff.2 ⟨_, hhandles⟩
  refine ⟨hscopes, _, _, hrun, hhandles, ?_⟩
  refine ((reported_line_is_marked_iff hscopes hrun).2 _ hhandles).2 ?_ (by simp)
  rintro ⟨⟩

/-- The target of a line cannot be closed, although its command has done its work. -/
theorem lost_target_leaves_no_mark :
    let m : Machine :=
      { shell := { scopes := [{ policy := .stop }] }
        host := { table := CommandTable.control, failing := ["/f"]
                  store := { entries := [("/", .directory)] } } }
    ∃ faults m', handle (invoke 0) none "iocshCmd >f" {} false m = some (.goOn, m') ∧
      Handles (invoke 0) none "iocshCmd >f" {} false m [.closing faults] .goOn m' ∧
      m'.isErrored = false := by
  intro m
  have hreading : m.reading "iocshCmd >f" = .line ⟨["iocshCmd"], [⟨1, .write, "f"⟩]⟩ := by
    decide +kernel
  have hperforms : ∃ rs n, Performs (invoke 0) none ⟨["iocshCmd"], [⟨1, .write, "f"⟩]⟩ {}
      (m.shown "iocshCmd >f" false) [] rs n ∧ (rs.detach n).1 ≠ [] ∧ n.isErrored = false := by
    rw [shown_false]
    exact ⟨_, _, .command rfl rfl (.done rfl rfl rfl rfl), by decide +kernel, by decide +kernel⟩
  obtain ⟨rs, n, hperforms, hfaults, hunmarked⟩ := hperforms
  have hhandles := Handles.performed hreading hperforms
  rw [List.nil_append, Trouble.ofClosing_of_ne_nil hfaults] at hhandles
  exact ⟨_, _, handle_eq_some_iff.2 ⟨_, hhandles⟩, hhandles,
    (isErrored_detach rs {} n).trans hunmarked⟩

end Interpreter

end ConsoleShell
