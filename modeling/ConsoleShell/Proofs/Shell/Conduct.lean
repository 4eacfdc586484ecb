/-
Relations that runs stay inside.

To know that the machines before and after any run are related, it is enough to know this of
three things: of the steps that happen between calls, of one command that is called, and of one
invocation around its lines.  Commands start invocations again; of these the relation may be
taken for granted, since they have less fuel.  This file goes through the interpreter once for
all such relations.
-/
import ConsoleShell.Proofs.Shell.Dispatch
import ConsoleShell.Proofs.Shell.Rounds

namespace ConsoleShell

variable {σ : Type} [FileBase σ]

namespace Interpreter

open Machine

/-- The machines before and after an invocation with definitions are related. -/
def Conducts (N : Bytes → Machine σ → Machine σ → Prop) (invoke : Invoke σ) : Prop :=
  ∀ context source definitions,
    ShellM.Maintains (N definitions) (invoke context source definitions)

/-- The relation holds across what an interpreter does apart from calling commands, starting
invocations and handing over to an operator. -/
structure Steps (I : Machine σ → Machine σ → Prop) : Prop where
  openSource : ∀ source m, I m (openSource source m).2
  readLine : ∀ r m, I m (readLine r m).2.2
  closeReader : ∀ r m, I m (closeReader r m)
  openAll : ∀ (rs : Redirects) m, I m (rs.openAll m.resolve m).2.2
  attach : ∀ (rs : Redirects) m, I m (rs.attach m).2
  reattached : ∀ attachments m, I m (reattached attachments m)
  detach : ∀ rs location m, I m (detach rs location m)
  writeLine : ∀ o text (m : Machine σ), I m (m.writeLine o text)
  report : ∀ location message m, I m (report location message m)
  record : ∀ {e : Event} (m : Machine σ), e.kind ≠ .runCommand → I m (m.record e)
  setErrored : ∀ errored (m : Machine σ), I m (m.setErrored errored)
  halt : ∀ m : Machine σ, I m m.halt.2
  follow : ∀ plan (m : Machine σ), I m { m with host := { m.host with plan } }
  withdraw : ∀ channel (m : Machine σ), I m (m.withdraw channel)
  cancel : ∀ context (m : Machine σ), I m (m.cancel context)
  resume : ∀ m, I m (resumeByOperator m)

/-- What has to be known of a relation `I` for the steps between calls, of a relation `R` for lines
and of relations `N` for invocations with definitions, so that every run stays inside them. -/
structure Conduct (I R : Machine σ → Machine σ → Prop) (N : Bytes → Machine σ → Machine σ → Prop) :
    Prop where
  steps : Steps I
  lift : ∀ {m m'}, I m m' → R m m'
  /-- The routine of a command is performed. -/
  call : ∀ {invoke} (_ : Conducts N invoke) {m m' : Machine σ} {name : Bytes} {words : List Bytes}
    {c : Command CommandBody} {args : Arguments} {v : Verdict},
    m.host.table.findCommand? name = some c →
    Argument.bind m.host.table.handle c.signature (name :: words) = .ok args →
    perform invoke (c.body args) (called (name :: words) m) = some (v, m') → R m m'
  /-- A line runs a script that it redirects its input from. -/
  input : ∀ {m m'}, N [] m m' → R m m'
  /-- The operator's shell takes over for a line and gives the place back. -/
  attend : ∀ {m n : Machine σ} (a : Attendance),
    N [] { m with shell := m.host.operator } n →
    R m { shell := m.shell, host := { n.host with
      operator := n.shell, attended := n.host.attended ++ [a] } }
  /-- An invocation does not begin to read. -/
  unread : ∀ {m m'} (definitions : Bytes), I m m' → N definitions m m'
  /-- An invocation handles its lines between entering and leaving. -/
  whole : ∀ {m m₁ n m' : Machine σ} {definitions : Bytes} {defs : List Definition}
    {context outer : Option Context} {scope : Scope}, I m m₁ →
    DefinitionList.parse definitions = .ok defs → R (enter context scope defs m₁) n →
    I (leave outer n) m' → N definitions m m'

section

variable {I R : Machine σ → Machine σ → Prop} {N : Bytes → Machine σ → Machine σ → Prop}

namespace Steps

variable [IsTrans (Machine σ) I] (h : Steps I)
include h

lemma fail (location : Location) (message : Bytes) (m : Machine σ) :
    I m (Interpreter.fail location message m) :=
  trans_of I (h.report location message m) (h.setErrored true _)

/-- A diagnostic is written and an event is recorded. -/
lemma note {e : Event} (he : e.kind ≠ .runCommand) (location : Location) (message : Bytes)
    (m : Machine σ) : I m ((Interpreter.report location message m).record e) :=
  trans_of I (h.report location message m) (h.record _ he)

lemma attached (rs : Redirects) (m : Machine σ) : I m (Interpreter.attached rs m) :=
  trans_of I (h.attach rs m) (h.reattached _ _)

end Steps

namespace Conduct

variable (h : Conduct I R N)
include h

lemma step {f : Machine σ → Machine σ} (hf : ∀ m, I m (f m)) :
    ShellM.Maintains R (modify f : ShellM σ Unit) :=
  ShellM.maintains_modify fun m => h.lift (hf m)

lemma stepGet {α : Type} {f : Machine σ → α × Machine σ} (hf : ∀ m, I m (f m).2) :
    ShellM.Maintains R (modifyGet f : ShellM σ α) :=
  ShellM.maintains_modifyGet fun m => h.lift (hf m)

/-- An operator's shell takes over for a line. -/
lemma attended {invoke : Invoke σ} (hinvoke : Conducts N invoke) (line : Bytes) :
    ShellM.Maintains R (Interpreter.attend invoke line) := by
  intro m u m' hrun
  rw [attend_apply] at hrun
  obtain ⟨⟨o, n⟩, hinner, heq⟩ := Option.map_eq_some_iff.1 hrun
  cases heq
  exact h.attend _ (hinvoke _ _ _ _ _ _ hinner)

/-! ### Lines -/

variable [IsTrans (Machine σ) I] [IsTrans (Machine σ) R] {invoke : Invoke σ}

/-- A command is called, and whatever comes of it is recorded. -/
lemma callMarked {m m' : Machine σ} {u : Unit} {words : List Bytes} {c : Command CommandBody}
    {args : Arguments} {location : Location}
    (hcall : ∀ {v n}, perform invoke (c.body args) (called words m) = some (v, n) → R m n)
    (hrun : callMarked invoke c args words location m = some (u, m')) : R m m' := by
  have hnoted : ∀ {f : Failure} {n : Machine σ}, R m n → R m
      (((report location f.message n).record (.invalidInvocation words f.message)).setErrored
        true) := by
    intro f n hn
    have hnote := h.steps.note (e := .invalidInvocation words f.message) (by simp [Event.kind])
      location f.message n
    exact trans_of R hn (h.lift (trans_of I hnote (h.steps.setErrored true _)))
  rw [callMarked_apply, call_apply, Option.map_map] at hrun
  obtain ⟨⟨v, n⟩, hperform, heq⟩ := Option.map_eq_some_iff.1 hrun
  cases v with
  | done =>
    cases heq
    exact hcall hperform
  | failed f =>
    cases heq
    exact hnoted (hcall hperform)
  | crashed cause =>
    cases heq
    have hcrash := h.steps.record (e := .crash cause []) n (by simp [Event.kind])
    exact hnoted (f := .plain _) (trans_of R (hcall hperform) (h.lift hcrash))

/-- A command is called between attaching the targets of its line and giving them back. -/
lemma callAttached {m m' : Machine σ} {rs rs' : Redirects} {words : List Bytes}
    {c : Command CommandBody} {args : Arguments} {location : Location}
    (hcall : ∀ {v n}, perform invoke (c.body args) (called words (attached rs m)) = some (v, n) →
      R (attached rs m) n)
    (hrun : callAttached invoke c args words rs location m = some (rs', m')) : R m m' := by
  rw [callAttached_apply] at hrun
  obtain ⟨⟨u, n⟩, hmarked, heq⟩ := Option.map_eq_some_iff.1 hrun
  cases heq
  have hlater := h.lift (h.steps.reattached m.shell.attachments n)
  exact trans_of R (h.lift (h.steps.attached rs m)) (trans_of R (h.callMarked hcall hmarked) hlater)

variable [Std.Refl R]

lemma openTargets (rs : Redirects) (location : Location) :
    ShellM.Maintains R (openTargets rs location) := by
  refine ShellM.maintains_bind (h.stepGet (h.steps.openAll rs)) fun opened => ?_
  obtain ⟨fault, rs'⟩ := opened
  cases fault with
  | none => exact ShellM.maintains_pure _
  | some f =>
    exact ShellM.maintains_bind (h.step (h.steps.fail location _)) fun _ =>
      ShellM.maintains_pure _

variable (hinvoke : Conducts N invoke)
include hinvoke

lemma dispatchOpen (words : List Bytes) (rs : Redirects) (location : Location) :
    ShellM.Maintains R (dispatchOpen invoke words rs location) := by
  intro m rs' m' hrun
  cases words with
  | nil =>
    obtain ⟨-, rfl⟩ := ShellM.pure_eq_some hrun
    exact refl_of R m
  | cons name words =>
    have hmarked := h.steps.setErrored true m
    have hnote : ∀ (message : Bytes) (e : Event), e.kind ≠ .runCommand →
        R m ((report location message (m.setErrored true)).record e) := fun message e he =>
      h.lift (trans_of I hmarked (h.steps.note he location message _))
    rcases dispatchOpen_cases hrun with
      ⟨-, rfl, rfl⟩ | ⟨c, f, -, -, rfl, rfl⟩ | ⟨c, args, hfind, hbind, hrun⟩
    · exact hnote _ _ (by simp [Event.kind])
    · exact hnote _ _ (by simp [Event.kind])
    · rw [← host_setErrored m true] at hfind hbind
      -- attaching the targets does not change the table in which the command was found
      exact trans_of R (h.lift hmarked) (h.callAttached (h.call hinvoke hfind hbind) hrun)

lemma dispatch (line : Line) (location : Location) :
    ShellM.Maintains R (dispatch invoke line location) := by
  refine ShellM.maintains_bind (h.openTargets _ location) fun opened => ?_
  cases opened with
  | none => exact ShellM.maintains_pure ()
  | some rs =>
    exact ShellM.maintains_bind (h.dispatchOpen hinvoke _ rs location) fun rs' =>
      h.step (h.steps.detach rs' location)

lemma nested (context : Option Context) (name : Bytes) (rs : Redirects) (location : Location) :
    ShellM.Maintains R (nested invoke context name rs location) := by
  rw [Interpreter.nested]
  split
  · exact ShellM.maintains_bind (h.step (h.steps.fail location _)) fun _ =>
      ShellM.maintains_pure ()
  · refine ShellM.maintains_bind (h.openTargets rs location) fun opened => ?_
    cases opened with
    | none => exact ShellM.maintains_pure ()
    | some rs =>
      refine ShellM.maintains_bind (h.stepGet (h.steps.attach rs)) fun rs' =>
        ShellM.maintains_bind ?_ fun _ => h.step (h.steps.detach rs' location)
      refine ShellM.maintains_bind (fun n o n' hrun => h.input (hinvoke _ _ _ n o n' hrun))
        fun o => ?_
      split
      · exact h.step (h.steps.setErrored true)
      · exact ShellM.maintains_pure ()

/-- Lines, scripts that they run, and lines of an operator stay inside the relation. -/
lemma rounds : Rounds invoke R where
  writeLine o text m := h.lift (h.steps.writeLine o text m)
  fail location message m := h.lift (h.steps.fail location message m)
  halt m := h.lift (h.steps.halt m)
  follow plan m := h.lift (h.steps.follow plan m)
  withdraw channel m := h.lift (h.steps.withdraw channel m)
  cancel context m := h.lift (h.steps.cancel context m)
  resume m := h.lift (h.steps.resume m)
  dispatch location _ := h.dispatch hinvoke _ location
  nested context name _ location _ := h.nested hinvoke context name _ location
  attend := h.attended hinvoke

/-! ### Invocations -/

lemma invocation (fuel : Nat) : Conducts N (invocation invoke fuel) := by
  intro context source definitions m o m' hrun
  have hopened := h.steps.openSource source m
  rcases invocation_cases hrun with ⟨f, hopen, -⟩ | ⟨reader, m₁, f, hopen, -, -, rfl⟩ |
      ⟨reader, m₁, defs, p, hopen, hparse, hloop, -, rfl⟩ <;> rw [hopen] at hopened
  · exact h.unread definitions hopened
  · have hwritten := trans_of I hopened (h.steps.writeLine .error f.message m₁)
    exact h.unread definitions (trans_of I hwritten (h.steps.closeReader reader _))
  · have hlines := (h.rounds hinvoke).loop (fun r n => h.lift (h.steps.readLine r n))
    exact h.whole hopened hparse (hlines _ _ _ _ _ _ _ hloop) (h.steps.closeReader _ _)

end Conduct

/-- Every invocation stays inside the relations, however deeply invocations nest in it. -/
lemma Conduct.invoke [IsTrans (Machine σ) I] [Std.Refl R] [IsTrans (Machine σ) R]
    (h : Conduct I R N) (fuel : Nat) : Conducts N (invoke fuel) := by
  induction fuel with
  | zero =>
    intro context source definitions m o m' hrun
    cases hrun
  | succ fuel ih => exact h.invocation ih fuel

end

end Interpreter

end ConsoleShell
