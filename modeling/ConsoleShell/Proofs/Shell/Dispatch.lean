/-
How lines and invocations are taken apart.

A line without words that redirects its input runs a script; every other line is dispatched to
a command, unless it leaves the invocation.  Either way the targets of its redirections are
opened before anything is run.  An invocation opens its source, enters, runs its loop and
leaves.  This file has the equations for these steps, so that facts about lines and invocations
need not unfold the interpreter again.
-/
import ConsoleShell.Proofs.Shell.Frame

namespace ConsoleShell

variable {σ : Type}

/-! ### The mark of a line that failed -/

namespace Machine

@[simp] lemma host_setErrored (m : Machine σ) (errored : Bool) :
    (m.setErrored errored).host = m.host := by
  rw [setErrored, modifyScope]
  split <;> rfl

lemma scopes_setErrored {m : Machine σ} {s : Scope} {rest : List Scope}
    (h : m.shell.scopes = s :: rest) (errored : Bool) :
    (m.setErrored errored).shell.scopes = { s with errored } :: rest := by
  simp only [setErrored, modifyScope, h]

lemma isErrored_setErrored {m : Machine σ} (h : m.shell.scopes ≠ []) (errored : Bool) :
    (m.setErrored errored).isErrored = errored := by
  obtain ⟨s, rest, hscopes⟩ := List.exists_cons_of_ne_nil h
  rw [isErrored, scopes_setErrored hscopes]
  rfl

end Machine

/-! ### The redirections of a line -/

namespace Redirects

lemma input?_ofList (rs : List Redirection) :
    (ofList rs).input? = rs.find? fun r => r.fd == 0 := by
  simp [input?, ofList, List.find?_map, Function.comp_def, Option.map_map]

lemma without_ofList (rs : List Redirection) :
    (ofList rs).without 0 = ofList (rs.filter fun r => r.fd != 0) := by
  simp only [without, ofList, List.filter_map]
  congr 2
  funext r
  simp [bne]

end Redirects

/-- The redirections of a line by increasing descriptor: that of the input, if there is one, and
then those of outputs. -/
lemma Line.redirections_eq {rs : List Redirection} (h : rs.Pairwise fun a b => a.fd < b.fd) :
    ∃ input? : Option Redirection, (∀ i ∈ input?, i.fd = 0) ∧
      rs = input?.toList ++ rs.filter fun r => r.fd != 0 := by
  have hkeep : ∀ xs : List Redirection, (∀ x ∈ xs, 0 < x.fd) →
      xs.filter (fun r => r.fd != 0) = xs := by
    intro xs hxs
    refine List.filter_eq_self.2 fun x hx => ?_
    simpa using Nat.pos_iff_ne_zero.1 (hxs x hx)
  cases rs with
  | nil => exact ⟨none, by simp, rfl⟩
  | cons r rs =>
    have hrest : ∀ x ∈ rs, 0 < x.fd := fun x hx =>
      Nat.lt_of_le_of_lt (Nat.zero_le _) ((List.pairwise_cons.1 h).1 x hx)
    by_cases hr : r.fd = 0
    · refine ⟨some r, by simpa using hr, ?_⟩
      simp [hr, hkeep rs hrest]
    · refine ⟨none, by simp, ?_⟩
      simp [hr, hkeep rs hrest]

/-! ### Opening targets and handling lines -/

namespace Interpreter

open Machine

variable [FileBase σ]

lemma openTargets_of_fault {m n : Machine σ} {rs rs' : Redirects} {f : RedirectionFault}
    (h : rs.openAll m.resolve m = (some f, rs', n)) (location : Location) :
    openTargets rs location m = some (none, fail location f.message n) := by
  rw [openTargets, ShellM.modifyGet_bind]
  simp only [h]
  rfl

lemma openTargets_of_ok {m n : Machine σ} {rs rs' : Redirects}
    (h : rs.openAll m.resolve m = (none, rs', n)) (location : Location) :
    openTargets rs location m = some (some rs', n) := by
  rw [openTargets, ShellM.modifyGet_bind]
  simp only [h]
  rfl

/-- A line without words that redirects its input runs a script. -/
lemma handleSplit_script {line : Line} {i : Redirection} (hwords : line.words = [])
    (hinput : (Redirects.ofList line.redirections).input? = some i) (invoke : Invoke σ)
    (context : Option Context) (location : Location) (m : Machine σ) :
    handleSplit invoke context line location m =
      (nested invoke context i.name ((Redirects.ofList line.redirections).without 0) location
        m).map fun p => (.goOn, p.2) := by
  simp only [handleSplit, hwords, hinput]
  exact ShellM.bind_pure_of_const _ _ m

/-- A line whose first word asks to leave the invocation does nothing else. -/
lemma handleSplit_exit {line : Line} (hexit : line.words.head? = some "exit") (invoke : Invoke σ)
    (context : Option Context) (location : Location) :
    handleSplit invoke context line location = pure .leave := by
  unfold handleSplit
  dsimp only
  split
  · rename_i hwords _
    simp [hwords] at hexit
  · simp only [hexit, beq_self_eq_true, if_true]

/-- Every other line is dispatched, unless it leaves the invocation. -/
lemma handleSplit_command {line : Line}
    (hscript : line.words = [] → (Redirects.ofList line.redirections).input? = none)
    (hexit : line.words.head? ≠ some "exit") (invoke : Invoke σ) (context : Option Context)
    (location : Location) (m : Machine σ) :
    handleSplit invoke context line location m =
      (dispatch invoke line location m).map fun p => (.goOn, p.2) := by
  have hgoOn : (line.words.head? == some "exit") = false := beq_eq_false_iff_ne.2 hexit
  rw [← ShellM.bind_pure_of_const, handleSplit]
  cases hwords : line.words with
  | nil =>
    rw [hwords] at hgoOn
    simp only [hscript hwords, hgoOn, Bool.false_eq_true, if_false]
  | cons w ws =>
    rw [hwords] at hgoOn
    simp only [hgoOn, Bool.false_eq_true, if_false]

/-! ### Calling commands and running scripts -/

/-- The machine on which the body of a command is performed. -/
def called (words : List Bytes) (m : Machine σ) : Machine σ :=
  ((m.setErrored false).record (.runCommand words)).noteCall words

/-- The machine with the targets of a line attached and known to its command. -/
def attached (rs : Redirects) (m : Machine σ) : Machine σ :=
  { (rs.attach m).2 with shell := { (rs.attach m).2.shell with attachments := (rs.attach m).1 } }

/-- The machine with other redirections of the running line. -/
def reattached (attachments : List Attachment) (m : Machine σ) : Machine σ :=
  { m with shell := { m.shell with attachments } }

section Calls

variable (invoke : Invoke σ) {m : Machine σ} {name : Bytes} {words : List Bytes}
  {c : Command CommandBody}

/-- What becomes of a verdict: a crash is recorded and counts as a failure. -/
lemma call_apply (body : CommandBody) (args : Arguments) (m : Machine σ) :
    call invoke body args m = (perform invoke (body args) m).map fun p => match p with
      | (.done, n) => (none, n)
      | (.failed f, n) => (some f, n)
      | (.crashed cause, n) =>
        (some (.plain (("panic: " : Bytes) ++ cause)), n.record (.crash cause [])) := by
  rw [call, ShellM.bind_apply]
  rcases perform invoke (body args) m with _ | ⟨_ | f | cause, n⟩ <;> rfl

/-- The body of a command is performed without a mark on the line; what becomes of it is reported,
recorded and marked. -/
lemma callMarked_apply (c : Command CommandBody) (args : Arguments) (words : List Bytes)
    (location : Location) (m : Machine σ) : callMarked invoke c args words location m =
      (call invoke c.body args (called words m)).map fun p => match p with
        | (none, n) => ((), n)
        | (some f, n) => ((),
          ((report location f.message n).record (.invalidInvocation words f.message)).setErrored
            true) := by
  rw [callMarked, ShellM.modify_bind, ShellM.bind_apply]
  show (call invoke c.body args (called words m)).bind _ = _
  rcases call invoke c.body args (called words m) with _ | ⟨_ | f, n⟩ <;> rfl

/-- A command is called between attaching the targets of its line and giving them back. -/
lemma callAttached_apply (c : Command CommandBody) (args : Arguments) (words : List Bytes)
    (rs : Redirects) (location : Location) (m : Machine σ) :
    callAttached invoke c args words rs location m =
      (callMarked invoke c args words location (attached rs m)).map fun p =>
        ((rs.attach m).1, reattached m.shell.attachments p.2) := by
  show ((callMarked invoke c args words location (attached rs m)).bind fun p => some _) = _
  cases callMarked invoke c args words location (attached rs m) <;> rfl

/-- No command has the name. -/
lemma dispatchOpen_unknown (hfind : m.host.table.findCommand? name = none) (rs : Redirects)
    (location : Location) : dispatchOpen invoke (name :: words) rs location m =
      some (rs, (report location (("Command " : Bytes) ++ name ++ " not found.")
        (m.setErrored true)).record (.unknownCommand (name :: words))) := by
  rw [dispatchOpen, ShellM.modify_bind, ShellM.get_bind]
  simp only [host_setErrored, hfind]
  rfl

/-- The words do not fit the declaration of the command. -/
lemma dispatchOpen_rejected {f : Argument.Fault}
    (hfind : m.host.table.findCommand? name = some c)
    (hbind : Argument.bind m.host.table.handle c.signature (name :: words) = .error f)
    (rs : Redirects) (location : Location) : dispatchOpen invoke (name :: words) rs location m =
      some (rs, (report location f.message (m.setErrored true)).record
        (.invalidInvocation (name :: words) f.message)) := by
  rw [dispatchOpen, ShellM.modify_bind, ShellM.get_bind]
  simp only [host_setErrored, hfind, hbind]
  rfl

lemma dispatchOpen_apply {args : Arguments} (hfind : m.host.table.findCommand? name = some c)
    (hbind : Argument.bind m.host.table.handle c.signature (name :: words) = .ok args)
    (rs : Redirects) (location : Location) : dispatchOpen invoke (name :: words) rs location m =
      callAttached invoke c args (name :: words) rs location (m.setErrored true) := by
  rw [dispatchOpen, ShellM.modify_bind, ShellM.get_bind]
  simp only [host_setErrored, hfind, hbind]

variable {invoke} in
/-- What becomes of the words of a line whose targets are open. -/
lemma dispatchOpen_cases {rs rs' : Redirects} {location : Location} {m' : Machine σ}
    (h : dispatchOpen invoke (name :: words) rs location m = some (rs', m')) :
    (m.host.table.findCommand? name = none ∧ rs' = rs ∧
      m' = (report location (("Command " : Bytes) ++ name ++ " not found.")
        (m.setErrored true)).record (.unknownCommand (name :: words))) ∨
    (∃ c f, m.host.table.findCommand? name = some c ∧
      Argument.bind m.host.table.handle c.signature (name :: words) = .error f ∧ rs' = rs ∧
      m' = (report location f.message (m.setErrored true)).record
        (.invalidInvocation (name :: words) f.message)) ∨
    ∃ c args, m.host.table.findCommand? name = some c ∧
      Argument.bind m.host.table.handle c.signature (name :: words) = .ok args ∧
      callAttached invoke c args (name :: words) rs location (m.setErrored true) =
        some (rs', m') := by
  cases hfind : m.host.table.findCommand? name with
  | none =>
    rw [dispatchOpen_unknown invoke hfind] at h
    cases h
    exact .inl ⟨rfl, rfl, rfl⟩
  | some c =>
    cases hbind : Argument.bind m.host.table.handle c.signature (name :: words) with
    | error f =>
      rw [dispatchOpen_rejected invoke hfind hbind] at h
      cases h
      exact .inr (.inl ⟨c, f, rfl, hbind, rfl, rfl⟩)
    | ok args =>
      rw [dispatchOpen_apply invoke hfind hbind] at h
      exact .inr (.inr ⟨c, args, rfl, hbind, h⟩)

/-- The line fails if a target cannot be opened. -/
lemma dispatch_refused {line : Line} {rs : Redirects} {f : RedirectionFault} {n : Machine σ}
    (hopen : (Redirects.ofList line.redirections).openAll m.resolve m = (some f, rs, n))
    (location : Location) :
    dispatch invoke line location m = some ((), fail location f.message n) := by
  rw [dispatch, ShellM.bind_apply, openTargets_of_fault hopen]
  rfl

/-- The words of a line are dispatched between opening and closing its targets. -/
lemma dispatch_apply {line : Line} {rs : Redirects} {n : Machine σ}
    (hopen : (Redirects.ofList line.redirections).openAll m.resolve m = (none, rs, n))
    (location : Location) :
    dispatch invoke line location m =
      (dispatchOpen invoke line.words rs location n).map fun p => ((), detach p.1 location p.2) := by
  rw [dispatch, ShellM.bind_apply, openTargets_of_ok hopen]
  show ((dispatchOpen invoke line.words rs location n).bind fun p => some _) = _
  cases dispatchOpen invoke line.words rs location n <;> rfl

/-- Nothing is run for a script without a name. -/
lemma nested_nameless (context : Option Context) (rs : Redirects) (location : Location)
    (m : Machine σ) : nested invoke context [] rs location m =
      some ((), fail location (RedirectionFault.message ⟨[], .notExist⟩) m) := rfl

lemma nested_refused {rs rs' : Redirects} {f : RedirectionFault} {n : Machine σ} (hname : name ≠ [])
    (hopen : rs.openAll m.resolve m = (some f, rs', n)) (context : Option Context)
    (location : Location) :
    nested invoke context name rs location m = some ((), fail location f.message n) := by
  have hne : name.isEmpty = false := by simpa using hname
  rw [nested, hne, if_neg Bool.false_ne_true, ShellM.bind_apply, openTargets_of_fault hopen]
  rfl

/-- A script is run between attaching the targets of its line and closing them. -/
lemma nested_apply {rs rs' : Redirects} {n : Machine σ} (hname : name ≠ [])
    (hopen : rs.openAll m.resolve m = (none, rs', n)) (context : Option Context)
    (location : Location) :
    nested invoke context name rs location m =
      (runMarked invoke context (.ofPath name) (rs'.attach n).2).map fun p =>
        ((), detach (rs'.attach n).1 location p.2) := by
  have hne : name.isEmpty = false := by simpa using hname
  rw [nested, hne, if_neg Bool.false_ne_true, ShellM.bind_apply, openTargets_of_ok hopen]
  show ((runMarked invoke context (.ofPath name) (rs'.attach n).2).bind fun p => some _) = _
  cases runMarked invoke context (.ofPath name) (rs'.attach n).2 <;> rfl

omit [FileBase σ] in
/-- A line by the operator is run by the operator's shell, and the suspended shell gets its place
back. -/
lemma attend_apply (line : Bytes) (m : Machine σ) :
    attend invoke line m =
      (invoke none (.line line) [] { m with shell := m.host.operator }).map fun p => ((),
        { shell := m.shell
          host := { p.2.host with
            operator := p.2.shell
            attended := p.2.host.attended ++ [.ran p.1.failure
              ((p.2.host.traffic.drop m.host.traffic.length).filter fun t =>
                t.shell == p.2.shell.id)] } }) := by
  rw [attend, ShellM.get_bind]
  show ((invoke none (.line line) [] { m with shell := m.host.operator }).bind fun p =>
    some _) = _
  cases invoke none (.line line) [] { m with shell := m.host.operator } <;> rfl

end Calls

/-! ### The stages of an invocation -/

/-- What an invocation comes to once its loop is done. -/
def conclusion (outer : Option Context) (p : (Option Failure × Reader) × Machine σ) :
    Outcome × Machine σ :=
  (⟨p.2.isErrored, p.1.1⟩, closeReader p.1.2 (leave outer p.2))

section Stages

variable {source : Source} {definitions : Bytes} {m m₁ : Machine σ} {reader : Reader}
  (invoke : Invoke σ) (fuel : Nat) (context : Option Context)

/-- Nothing is entered if the source cannot be opened. -/
lemma invocation_of_unopened {f : Failure} (hopen : openSource source m = (.error f, m₁))
    (definitions : Bytes) :
    invocation invoke fuel context source definitions m = some (⟨true, some f⟩, m₁) := by
  rw [invocation, ShellM.modifyGet_bind, hopen]
  rfl

/-- The source is closed again if the definitions cannot be read. -/
lemma invocation_of_malformed {f : DefinitionList.Fault}
    (hopen : openSource source m = (.ok reader, m₁))
    (hparse : DefinitionList.parse definitions = .error f) :
    invocation invoke fuel context source definitions m =
      some (⟨true, some (.setup .malformed f.message)⟩,
        closeReader reader (m₁.writeLine .error f.message)) := by
  rw [invocation, ShellM.modifyGet_bind, hopen]
  simp only [hparse]
  rfl

/-- Lines are run between entering and leaving, and whichever way the loop ends, what follows it
is the same. -/
lemma invocation_of_ok {defs : List Definition} (hopen : openSource source m = (.ok reader, m₁))
    (hparse : DefinitionList.parse definitions = .ok defs) :
    invocation invoke fuel context source definitions m =
      (loop readLine invoke context source.isScript fuel
        { reader, location := { file := source.label } }
        (enter context source.scope defs m₁)).map (conclusion m₁.shell.context) := by
  rw [invocation, ShellM.modifyGet_bind, hopen]
  simp only [hparse]
  show ((loop readLine invoke context source.isScript fuel
    { reader, location := { file := source.label } }
    (enter context source.scope defs m₁)).bind fun p => some (conclusion m₁.shell.context p)) = _
  rw [Option.map_eq_bind]
  rfl

variable {invoke fuel context}

/-- How an invocation comes to its outcome. -/
lemma invocation_cases {o : Outcome} {m' : Machine σ}
    (h : invocation invoke fuel context source definitions m = some (o, m')) :
    (∃ f, openSource source m = (.error f, m') ∧ o = ⟨true, some f⟩) ∨
    (∃ reader m₁ f, openSource source m = (.ok reader, m₁) ∧
      DefinitionList.parse definitions = .error f ∧
      o = ⟨true, some (.setup .malformed f.message)⟩ ∧
      m' = closeReader reader (m₁.writeLine .error f.message)) ∨
    ∃ reader m₁ defs p, openSource source m = (.ok reader, m₁) ∧
      DefinitionList.parse definitions = .ok defs ∧
      loop readLine invoke context source.isScript fuel
        { reader, location := { file := source.label } }
        (enter context source.scope defs m₁) = some p ∧
      o = (conclusion m₁.shell.context p).1 ∧ m' = (conclusion m₁.shell.context p).2 := by
  rcases hopen : openSource source m with ⟨f | reader, m₁⟩
  · rw [invocation_of_unopened invoke fuel context hopen] at h
    cases h
    exact .inl ⟨f, rfl, rfl⟩
  cases hparse : DefinitionList.parse definitions with
  | error f =>
    rw [invocation_of_malformed invoke fuel context hopen hparse] at h
    cases h
    exact .inr (.inl ⟨reader, m₁, f, rfl, rfl, rfl, rfl⟩)
  | ok defs =>
    rw [invocation_of_ok invoke fuel context hopen hparse] at h
    obtain ⟨p, hloop, heq⟩ := Option.map_eq_some_iff.1 h
    obtain ⟨ho, hm⟩ := Prod.mk.inj heq
    exact .inr (.inr ⟨reader, m₁, defs, p, rfl, rfl, hloop, ho.symm, hm.symm⟩)

end Stages

end Interpreter

end ConsoleShell
