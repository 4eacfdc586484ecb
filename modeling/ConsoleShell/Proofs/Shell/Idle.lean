/-
What happens between calls.

Apart from calling commands, starting invocations and handing over to an operator, an
interpreter reads lines, opens and closes targets, writes diagnostics, records what went wrong,
and keeps the books of suspensions.  None of this touches definitions, the environment, the
table or the list of calls, and nothing that is recorded says that a command is called.
-/
import ConsoleShell.Proofs.Shell.ReadOnlySession

namespace ConsoleShell

/-- The event is about a file. -/
def Event.IsAccess (e : Event) : Prop := e.kind = .fileAccess

namespace Machine

/-! ### What is recorded -/

/-- Events with a property are recorded, and none is taken back. -/
def Adds (P : Event → Prop) (m m' : Machine) : Prop :=
  ∃ es, m'.host.events = m.host.events ++ es ∧ ∀ e ∈ es, P e

section Adds

variable {P Q : Event → Prop} {m m' m'' : Machine}

lemma Adds.of_eq (h : m'.host.events = m.host.events) : Adds P m m' :=
  ⟨[], by rw [h, List.append_nil], List.forall_mem_nil _⟩

lemma Adds.refl (m : Machine) : Adds P m m := .of_eq rfl

lemma Adds.trans (h : Adds P m m') (h' : Adds P m' m'') : Adds P m m'' := by
  obtain ⟨es, hes, hP⟩ := h
  obtain ⟨es', hes', hP'⟩ := h'
  exact ⟨es ++ es', by rw [hes', hes, List.append_assoc], List.forall_mem_append.2 ⟨hP, hP'⟩⟩

instance : Std.Refl (Adds P) := ⟨Adds.refl⟩

instance : IsTrans Machine (Adds P) := ⟨fun _ _ _ => Adds.trans⟩

lemma Adds.mono (h : Adds P m m') (hPQ : ∀ e, P e → Q e) : Adds Q m m' := by
  obtain ⟨es, hes, hP⟩ := h
  exact ⟨es, hes, fun e he => hPQ e (hP e he)⟩

lemma Records.adds {es : List Event} (h : Records m es m') (hes : ∀ e ∈ es, P e) :
    Adds P m m' := by
  refine ⟨_, h.events, fun e he => ?_⟩
  split at he
  · exact hes e he
  · cases he

end Adds

/-! ### Files and streams -/

section Files

variable (m : Machine)

lemma isAccess_trail (r : FileRequest) : ∀ e ∈ m.trail r, e.IsAccess := by
  intro e he
  rw [trail] at he
  split at he
  · cases he
  · obtain ⟨q, -, rfl⟩ := List.mem_map.1 he
    rfl

lemma adds_request (r : FileRequest) : Adds Event.IsAccess m (m.request r).2 :=
  (m.records_request r).adds (m.isAccess_trail r)

lemma adds_openFile (r : FileRequest) : Adds Event.IsAccess m (m.openFile r).2 :=
  (m.records_openFile r).adds (m.isAccess_trail r)

lemma adds_closeHandle (h : Nat) : Adds Event.IsAccess m (m.closeHandle h).2 :=
  (m.records_closeHandle h).adds (List.forall_mem_nil _)

lemma adds_writeTo (fd : Nat) (e : Endpoint) (text : Bytes) :
    Adds Event.IsAccess m (m.writeTo fd e text) :=
  (m.records_writeTo fd e text).adds (List.forall_mem_nil _)

lemma adds_read (e : Endpoint) (count : Nat) : Adds Event.IsAccess m (read e count m).2 := by
  cases e with
  | null => exact .refl m
  | session =>
    simp only [read]
    split <;> exact .of_eq rfl
  | file h =>
    simp only [read, readFile]
    split
    · exact .refl m
    · exact .of_eq rfl

end Files

lemma Adds.inputOutput : InputOutput (Adds Event.IsAccess) where
  request m _ := m.adds_request _
  openFile m _ := m.adds_openFile _
  closeHandle h m := m.adds_closeHandle h
  listDirectory _ _ := .of_eq rfl
  read e count m := m.adds_read e count
  writeTo fd e text m := m.adds_writeTo fd e text
  remember _ _ := .of_eq rfl

/-! ### Idle steps -/

/-- `m'` comes from `m` by steps that call no command and start no invocation. -/
structure Idles (m m' : Machine) : Prop where
  id : m'.shell.id = m.shell.id
  recorded : m'.shell.recorded = m.shell.recorded
  definitions : m'.shell.definitions = m.shell.definitions
  table : m'.host.table = m.host.table
  environment : m'.host.environment = m.host.environment
  operator : m'.host.operator = m.host.operator
  attended : m.host.attended <+: m'.host.attended
  calls : m'.host.calls = m.host.calls
  events : Adds (fun e => e.kind ≠ .runCommand) m m'

namespace Idles

variable {m m' m'' : Machine}

lemma refl (m : Machine) : Idles m m :=
  ⟨rfl, rfl, rfl, rfl, rfl, rfl, List.prefix_rfl, rfl, .refl m⟩

lemma trans (h : Idles m m') (h' : Idles m' m'') : Idles m m'' where
  id := h'.id.trans h.id
  recorded := h'.recorded.trans h.recorded
  definitions := h'.definitions.trans h.definitions
  table := h'.table.trans h.table
  environment := h'.environment.trans h.environment
  operator := h'.operator.trans h.operator
  attended := h.attended.trans h'.attended
  calls := h'.calls.trans h.calls
  events := h.events.trans h'.events

instance : Std.Refl Idles := ⟨refl⟩

instance : IsTrans Machine Idles := ⟨fun _ _ _ => trans⟩

end Idles

lemma Exchange.idles {m m' : Machine} (h : Exchange m m') (hevents : Adds Event.IsAccess m m') :
    Idles m m' := by
  have hother : Adds (fun e => e.kind ≠ .runCommand) m m' := by
    refine hevents.mono fun e he hrun => ?_
    rw [Event.IsAccess, hrun] at he
    cases he
  obtain ⟨_, _, _, _, _, _, _, _, rfl, -⟩ := h
  exact ⟨rfl, rfl, rfl, rfl, rfl, rfl, List.prefix_rfl, rfl, hother⟩

section Steps

variable (m : Machine)

/-- The state of the shell changes in what no other shell and no lookup sees. -/
lemma idles_shell (directory input : Bytes) (streams : Streams Endpoint)
    (context : Option Context) (scopes : List Scope) (attachments : List Attachment) :
    Idles m { m with shell := { m.shell with
      directory, input, streams, context, scopes, attachments } } :=
  ⟨rfl, rfl, rfl, rfl, rfl, rfl, List.prefix_rfl, rfl, .of_eq rfl⟩

/-- The books of sessions and suspensions change. -/
lemma idles_books (history : Option History) (cells : List (Storage × CellValue))
    (sessions : List (Bytes × Nat)) (gates : List (Nat × Gate)) (cancelled : List Context)
    (plan : List Intervention) (suspensions : Nat) (notes : List (Bytes × Arguments)) :
    Idles m { m with host := { m.host with
      history, cells, sessions, gates, cancelled, plan, suspensions, notes } } :=
  ⟨rfl, rfl, rfl, rfl, rfl, rfl, List.prefix_rfl, rfl, .of_eq rfl⟩

/-- Something that an operator did is noted. -/
lemma idles_attended (a : Attendance) :
    Idles m { m with host := { m.host with attended := m.host.attended ++ [a] } } :=
  ⟨rfl, rfl, rfl, rfl, rfl, rfl, List.prefix_append _ _, rfl, .of_eq rfl⟩

lemma idles_record {e : Event} (he : e.kind ≠ .runCommand) : Idles m (m.record e) := by
  have hevents := (m.records_record e).adds (P := fun e => e.kind ≠ .runCommand)
    (List.forall_mem_singleton.2 he)
  obtain ⟨_, _, _, _, _, _, _, _, heq, -⟩ := m.exchange_record e
  rw [heq] at hevents ⊢
  exact ⟨rfl, rfl, rfl, rfl, rfl, rfl, List.prefix_rfl, rfl, hevents⟩

lemma idles_modifyScope (f : Scope → Scope) : Idles m (m.modifyScope f) := by
  rw [modifyScope]
  split
  · exact .refl m
  · exact m.idles_shell _ _ _ _ _ _

lemma idles_setErrored (errored : Bool) : Idles m (m.setErrored errored) :=
  m.idles_modifyScope _

lemma idles_halt : Idles m m.halt.2 := m.idles_books _ _ _ _ _ _ _ _

lemma idles_withdraw (channel : Nat) : Idles m (m.withdraw channel) :=
  m.idles_books _ _ _ _ _ _ _ _

lemma idles_cancel (context : Option Context) : Idles m (m.cancel context) := by
  cases context with
  | none => exact .refl m
  | some c => exact m.idles_books _ _ _ _ _ _ _ _

end Steps

end Machine

/-- The query changes neither definitions nor the environment, and records no call. -/
def Query.IsIdle : Query → Prop
  | .setEnvironment _ _ => False
  | .unsetEnvironment _ => False
  | .clearDefinition _ => False
  | .record e => e.kind ≠ .runCommand
  | _ => True

namespace Machine

/-- Input and output records accesses to files and nothing else. -/
lemma Idles.inputOutput : InputOutput Idles where
  request m hr := (Exchange.inputOutput.request m hr).idles (Adds.inputOutput.request m hr)
  openFile m hr := (Exchange.inputOutput.openFile m hr).idles (Adds.inputOutput.openFile m hr)
  closeHandle h m :=
    (Exchange.inputOutput.closeHandle h m).idles (Adds.inputOutput.closeHandle h m)
  listDirectory path m :=
    (Exchange.inputOutput.listDirectory path m).idles (Adds.inputOutput.listDirectory path m)
  read e count m := (Exchange.inputOutput.read e count m).idles (Adds.inputOutput.read e count m)
  writeTo fd e text m :=
    (Exchange.inputOutput.writeTo fd e text m).idles (Adds.inputOutput.writeTo fd e text m)
  remember _ m := m.idles_books _ _ _ _ _ _ _ _

lemma Idles.answers : Answers Query.IsIdle Idles where
  toInputOutput := Idles.inputOutput
  move _ m := m.idles_shell _ _ _ _ _ _
  books _ _ _ m := m.idles_books _ _ _ _ _ _ _ _
  modifyScope _ _ m := m.idles_modifyScope _
  record m he := m.idles_record he
  setEnvironment _ h := by
    rcases h with ⟨_, h⟩ | h
    · exact h.elim
    · exact h.elim
  clearDefinition _ h := h.elim

end Machine

/-! ### Parts of the interpreter that are idle -/

namespace Interpreter

open Machine

lemma steps_idles : Steps Idles where
  openSource := Idles.inputOutput.openSource
  readLine := Idles.inputOutput.readLine
  closeReader := Idles.inputOutput.closeReader
  openAll rs m := Idles.inputOutput.openAll m.resolve rs m
  attach _ m := m.idles_shell _ _ _ _ _ _
  reattached _ m := m.idles_shell _ _ _ _ _ _
  detach := Idles.inputOutput.detach fun _ m => m.idles_shell _ _ _ _ _ _
  writeLine := Idles.inputOutput.writeLine
  report := Idles.inputOutput.report
  record m he := m.idles_record he
  setErrored errored m := m.idles_setErrored errored
  halt := idles_halt
  follow _ m := m.idles_books _ _ _ _ _ _ _ _
  withdraw channel m := m.idles_withdraw channel
  cancel context m := m.idles_cancel context
  resume m := (Idles.answers.release _ m).trans (idles_attended _ _)

end Interpreter

end ConsoleShell
