/-
The list of sessions while invocations run.

Invocations enter and leave, and whatever their lines do meanwhile leaves the list of sessions
alone, unless an operator's shell is listed itself.  So a whole invocation takes one start and
one end of its shell if it is the outermost one and its set-up succeeds, and none otherwise.
-/
import ConsoleShell.Proofs.Shell.Conduct
import ConsoleShell.Proofs.Shell.SessionList

namespace ConsoleShell

namespace Machine

/-! ### What decides about the list -/

/-- What decides whether an invocation is listed, and how, is the same. -/
structure Steady (m m' : Machine) : Prop where
  id : m'.shell.id = m.shell.id
  name : m'.shell.name = m.shell.name
  scopes : m'.shell.scopes.length = m.shell.scopes.length
  operator : m'.host.operator.name = m.host.operator.name

/-- The list of sessions is left alone besides. -/
structure Unlisting (m m' : Machine) : Prop extends Steady m m' where
  sessions : m'.host.sessions = m.host.sessions

section

variable {m m' m'' : Machine}

lemma Steady.trans (h : Steady m m') (h' : Steady m' m'') : Steady m m'' where
  id := h'.id.trans h.id
  name := h'.name.trans h.name
  scopes := h'.scopes.trans h.scopes
  operator := h'.operator.trans h.operator

lemma Steady.scopes_eq_nil_iff (h : Steady m m') : m'.shell.scopes = [] ↔ m.shell.scopes = [] := by
  rw [← List.length_eq_zero_iff, h.scopes, List.length_eq_zero_iff]

namespace Unlisting

lemma refl (m : Machine) : Unlisting m m := ⟨⟨rfl, rfl, rfl, rfl⟩, rfl⟩

lemma trans (h : Unlisting m m') (h' : Unlisting m' m'') : Unlisting m m'' where
  toSteady := h.toSteady.trans h'.toSteady
  sessions := h'.sessions.trans h.sessions

instance : Std.Refl Unlisting := ⟨refl⟩

instance : IsTrans Machine Unlisting := ⟨fun _ _ _ => trans⟩

end Unlisting

lemma Exchange.unlisting (h : Exchange m m') : Unlisting m m' := by
  obtain ⟨_, _, _, _, _, _, _, _, rfl, -⟩ := h
  exact ⟨⟨rfl, rfl, rfl, rfl⟩, rfl⟩

end

section Steps

variable (m : Machine)

lemma unlisting_shell (directory input : Bytes) (streams : Streams Endpoint)
    (definitions : Option Definitions) (attachments : List Attachment) :
    Unlisting m { m with shell := { m.shell with
      directory, input, streams, definitions, attachments } } :=
  ⟨⟨rfl, rfl, rfl, rfl⟩, rfl⟩

/-- The books of anything but sessions change. -/
lemma unlisting_books (environment : Environment) (history : Option History)
    (cells : List (Storage × CellValue)) (gates : List (Nat × Gate)) (cancelled : List Context)
    (plan : List Intervention) (attended : List Attendance) (suspensions : Nat)
    (notes : List (Bytes × Arguments)) (calls : List Call) :
    Unlisting m { m with host := { m.host with
      environment, history, cells, gates, cancelled, plan, attended, suspensions, notes,
      calls } } :=
  ⟨⟨rfl, rfl, rfl, rfl⟩, rfl⟩

lemma unlisting_modifyScope (f : Scope → Scope) : Unlisting m (m.modifyScope f) := by
  rw [modifyScope]
  split
  · exact .refl m
  · rename_i hscopes
    exact ⟨⟨rfl, rfl, by rw [hscopes]; rfl, rfl⟩, rfl⟩

lemma unlisting_cancel (context : Option Context) : Unlisting m (m.cancel context) := by
  cases context with
  | none => exact .refl m
  | some c => exact m.unlisting_books _ _ _ _ _ _ _ _ _ _

end Steps

lemma Unlisting.inputOutput : InputOutput Unlisting :=
  Exchange.inputOutput.mono Exchange.unlisting

/-- Whatever a command asks of its shell, the list is left alone. -/
lemma Unlisting.answers : Answers (fun _ => True) Unlisting where
  toInputOutput := Unlisting.inputOutput
  move _ m := m.unlisting_shell _ _ _ _ _
  books _ _ _ m := m.unlisting_books _ _ _ _ _ _ _ _ _ _
  modifyScope _ _ m := m.unlisting_modifyScope _
  record m _ := (m.exchange_record _).unlisting
  setEnvironment _ _ _ m := m.unlisting_books _ _ _ _ _ _ _ _ _ _
  clearDefinition m _ := m.unlisting_shell _ _ _ _ _

end Machine

namespace SessionList

namespace State

lemma machine_put (s : State) (i : Nat) (m : Machine) : (s.put i m).machine i = m := by
  simp [machine, put]

lemma put_put (s : State) (i : Nat) (m m' : Machine) : (s.put i m).put i m' = s.put i m' := by
  simp [put]

end State

end SessionList

namespace Interpreter

open Machine SessionList

lemma unlisting_called (words : List Bytes) (m : Machine) : Unlisting m (called words m) :=
  ((m.unlisting_modifyScope _).trans (exchange_record _ _).unlisting).trans
    (unlisting_books _ _ _ _ _ _ _ _ _ _ _)

lemma steps_unlisting : Steps Unlisting where
  openSource := Unlisting.inputOutput.openSource
  readLine := Unlisting.inputOutput.readLine
  closeReader := Unlisting.inputOutput.closeReader
  openAll rs m := Unlisting.inputOutput.openAll m.resolve rs m
  attach _ m := m.unlisting_shell _ _ _ _ _
  reattached _ m := m.unlisting_shell _ _ _ _ _
  detach := Unlisting.inputOutput.detach fun _ m => m.unlisting_shell _ _ _ _ _
  writeLine := Unlisting.inputOutput.writeLine
  report := Unlisting.inputOutput.report
  record m _ := (m.exchange_record _).unlisting
  setErrored _ m := m.unlisting_modifyScope _
  halt m := m.unlisting_books _ _ _ _ _ _ _ _ _ _
  follow _ m := m.unlisting_books _ _ _ _ _ _ _ _ _ _
  withdraw _ m := m.unlisting_books _ _ _ _ _ _ _ _ _ _
  cancel context m := m.unlisting_cancel context
  resume m := (Unlisting.answers.release _ m).trans (unlisting_books _ _ _ _ _ _ _ _ _ _ _)

/-! ### Lines -/

/-- Lines that are run inside an invocation, or by a shell without a name, leave the list alone. -/
structure Inward (m m' : Machine) : Prop extends Steady m m' where
  sessions : m.shell.scopes ≠ [] ∨ m.shell.name = [] → m'.host.sessions = m.host.sessions

/-- What `Inward` says, of machines whose operator is not listed. -/
def Confined (m m' : Machine) : Prop := m.host.operator.name = [] → Inward m m'

section

variable {m m' m'' : Machine}

lemma Inward.unlisting (h : Inward m m') (hscopes : m.shell.scopes ≠ []) : Unlisting m m' :=
  ⟨h.toSteady, h.sessions (.inl hscopes)⟩

lemma confined_of_unlisting (h : Unlisting m m') : Confined m m' :=
  fun _ => ⟨h.toSteady, fun _ => h.sessions⟩

lemma Confined.trans (h : Confined m m') (h' : Confined m' m'') : Confined m m'' := by
  intro hoperator
  have hfirst := h hoperator
  have hthen := h' (hfirst.operator.trans hoperator)
  refine ⟨hfirst.toSteady.trans hthen.toSteady, fun hinner => ?_⟩
  rw [hthen.sessions, hfirst.sessions hinner]
  rwa [ne_eq, hfirst.scopes_eq_nil_iff, hfirst.name]

instance : Std.Refl Confined := ⟨fun m => confined_of_unlisting (.refl m)⟩

instance : IsTrans Machine Confined := ⟨fun _ _ _ => Confined.trans⟩

lemma Confined.answers : Answers (fun _ => True) Confined :=
  Unlisting.answers.mono confined_of_unlisting

end

/-! ### Invocations -/

section

variable {m m₁ n m' : Machine} {context outer : Option Context} {scope : Scope}
  {defs : List Definition}

lemma enter_scopes_ne_nil : (enter context scope defs m).shell.scopes ≠ [] := by
  rw [shell_enter]
  exact List.cons_ne_nil _ _

/-- Lines leave an invocation more than the one around them. -/
lemma length_tail_of_whole (hopened : Steady m m₁)
    (hlines : Steady (enter context scope defs m₁) n) :
    n.shell.scopes.tail.length = m.shell.scopes.length := by
  rw [List.length_tail, hlines.scopes, shell_enter, List.length_cons, Nat.add_sub_cancel,
    hopened.scopes]

lemma steady_of_whole (hopened : Steady m m₁) (hlines : Steady (enter context scope defs m₁) n)
    (hclosed : Steady (leave outer n) m') : Steady m m' where
  id := by rw [hclosed.id, shell_leave, hlines.id, shell_enter, hopened.id]
  name := by rw [hclosed.name, shell_leave, hlines.name, shell_enter, hopened.name]
  scopes := by rw [hclosed.scopes, shell_leave, length_tail_of_whole hopened hlines]
  operator := by
    obtain ⟨sessions, henter⟩ := enter_eq context scope defs m₁
    obtain ⟨sessions', hleave⟩ := leave_eq outer n
    have hlines' := hlines.operator
    rw [henter] at hlines'
    rw [hclosed.operator, hleave, ← hopened.operator, ← hlines']

lemma inward_of_whole (hopened : Unlisting m m₁) (hlines : Inward (enter context scope defs m₁) n)
    (hclosed : Unlisting (leave outer n) m') : Inward m m' := by
  refine ⟨steady_of_whole hopened.toSteady hlines.toSteady hclosed.toSteady, fun hinner => ?_⟩
  have hinner₁ : m₁.shell.scopes ≠ [] ∨ m₁.shell.name = [] := by
    rwa [ne_eq, hopened.scopes_eq_nil_iff, hopened.name]
  have hname : n.shell.name = m.shell.name := by rw [hlines.name, shell_enter, hopened.name]
  have hinner' : n.shell.scopes.tail ≠ [] ∨ n.shell.name = [] := by
    rwa [hname, ne_eq, ← List.length_eq_zero_iff,
      length_tail_of_whole hopened.toSteady hlines.toSteady, List.length_eq_zero_iff]
  rw [hclosed.sessions, sessions_leave_of_inner _ hinner',
    hlines.sessions (.inl enter_scopes_ne_nil), sessions_enter_of_inner _ _ _ hinner₁,
    hopened.sessions]

/-- Steps that leave the list alone can be taken at once. -/
lemma step_of_unlisting {s : State} {i : Nat} (hs : s.machine i = m) (h : Unlisting m m') :
    Step s .other (s.put i m') := by
  subst hs
  exact .other {
    id := State.shells_put_of_eq h.id
    name := State.shells_put_of_eq h.name
    scopes := State.shells_put_of_eq (f := fun s => s.scopes.length) h.scopes
    sessions := h.sessions }

/-- A whole invocation, seen from the list of sessions: nothing happens to the list, or, if the
invocation is the outermost one of its shell, the shell starts and ends. -/
def Visits (m m' : Machine) : Prop :=
  ∀ (s : State) (i : Nat), s.machine i = m → Run s [.other] (s.put i m') ∨
    m.shell.scopes = [] ∧ Run s [.other, .started i, .other, .ended i, .other] (s.put i m')

lemma visits_of_unlisting (h : Unlisting m m') : Visits m m' :=
  fun _ _ hs => .inl (.cons (step_of_unlisting hs h) (.nil _))

lemma visits_of_whole (hopened : Unlisting m m₁) (hlines : Inward (enter context scope defs m₁) n)
    (hclosed : Unlisting (leave outer n) m') : Visits m m' := by
  by_cases hscopes : m.shell.scopes = []
  · intro s i hs
    refine .inr ⟨hscopes, ?_⟩
    have hidle : m₁.shell.scopes = [] := hopened.scopes_eq_nil_iff.2 hscopes
    have htail : n.shell.scopes.tail = [] := by
      rw [← List.length_eq_zero_iff, length_tail_of_whole hopened.toSteady hlines.toSteady, hscopes,
        List.length_nil]
    have hrunning : n.shell.scopes ≠ [] := by
      rw [ne_eq, hlines.scopes_eq_nil_iff]
      exact enter_scopes_ne_nil
    have hstart := Step.start (s := s.put i m₁) i context scope defs
      (by simpa [State.put] using hidle)
    have hfinish := Step.finish (s := s.put i n) i outer (by simpa [State.put] using hrunning)
      (by simpa [State.put] using htail)
    have hquiet := step_of_unlisting (s.machine_put i _) (hlines.unlisting enter_scopes_ne_nil)
    have hlast := step_of_unlisting (s.machine_put i _) hclosed
    rw [State.machine_put, State.put_put] at hstart hfinish
    rw [State.put_put] at hquiet hlast
    exact .cons (step_of_unlisting hs hopened) <| .cons hstart <| .cons hquiet <|
      .cons hfinish <| .cons hlast (.nil _)
  · exact visits_of_unlisting ((inward_of_whole hopened hlines hclosed).unlisting hscopes)

end

lemma conduct_confined : Conduct Unlisting Confined fun _ m m' =>
    m.host.operator.name = [] → Inward m m' ∧ Visits m m' where
  steps := steps_unlisting
  lift h := confined_of_unlisting h
  call {_} hinvoke {_ _ _ _ _ _ _} _ _ hperform :=
    Confined.trans (confined_of_unlisting (unlisting_called _ _))
      (Confined.answers.perform (fun context source definitions m o m' hrun hoperator =>
        (hinvoke context source definitions m o m' hrun hoperator).1) _ _ _ _ hperform)
  input h hoperator := (h hoperator).1
  attend {m n} a h hoperator := by
    have hinner := (h hoperator).1
    exact ⟨⟨rfl, rfl, rfl, hinner.name⟩, fun _ => hinner.sessions (.inr hoperator)⟩
  unread _ h _ := ⟨⟨h.toSteady, fun _ => h.sessions⟩, visits_of_unlisting h⟩
  whole {m m₁ n m' definitions defs context outer scope} hopened _ hlines hclosed hoperator := by
    have hentered : (enter context scope defs m₁).host.operator.name = [] := by
      obtain ⟨sessions, henter⟩ := enter_eq context scope defs m₁
      rw [henter]
      exact hopened.operator.trans hoperator
    exact ⟨inward_of_whole hopened (hlines hentered) hclosed,
      visits_of_whole hopened (hlines hentered) hclosed⟩

/-- **Invocations as runs.**  An outermost invocation is one start and one end of its shell, with
nothing that touches the list of sessions around and between them.  An invocation inside another
one, or one that cannot be set up, does not touch the list at all. -/
theorem visits_invoke {fuel : Nat} {m m' : Machine} {context : Option Context} {source : Source}
    {definitions : Bytes} {o : Outcome} (hoperator : m.host.operator.name = [])
    (hrun : invoke fuel context source definitions m = some (o, m')) : Visits m m' :=
  (conduct_confined.invoke fuel context source definitions m o m' hrun hoperator).2

end Interpreter

end ConsoleShell
