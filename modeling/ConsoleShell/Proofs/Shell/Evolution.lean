/-
What a run can do to a machine, step by step.

Whatever lines do, they do it in steps of a few kinds: they change the state of their shell or
the books of the process, they ask for a file operation, they keep, read, write and close open
files, they list directories, and an operator's shell takes over for a while.  This file states
these kinds of step as one inductive relation and shows once that every run stays inside it.  A
fact about all runs then needs one short argument for each kind of step.
-/
import ConsoleShell.Proofs.Shell.Conduct

namespace ConsoleShell

variable {σ : Type} [FileBase σ]

namespace Machine

/-! ### File operations under a guard -/

/-- What a file operation under the guard of the shell answers, and the files after it. -/
def outcome (m : Machine σ) (r : FileRequest) : Except FileFault FileAnswer × σ :=
  match m.shell.guard with
  | .none => FileBase.perform r m.host.store
  | .session readOnly =>
    let (answer, audited) := AuditedStore.perform ⟨m.host.store, []⟩ (sessionAuditor readOnly) r
    (answer, audited.store)

/-- The machine after a file operation has been noted and performed, with nothing recorded. -/
def asked (m : Machine σ) (r : FileRequest) : Machine σ :=
  { m with host := { m.host with
    requests := r :: m.host.requests, store := (m.outcome r).2 } }

/-- What is recorded about a file operation. -/
def trail (m : Machine σ) (r : FileRequest) : List Event :=
  match m.shell.guard with
  | .none => []
  | .session readOnly =>
    let auditor := sessionAuditor readOnly
    let (_, audited) := AuditedStore.perform ⟨m.host.store, []⟩ auditor r
    (audited.asked.reverse.filter Inquiry.isRecorded).map fun q =>
      .fileAccess q.operation.name q.path (auditor [q]).isNone

/-- A file operation is performed, then its trail is recorded. -/
lemma request_eq (m : Machine σ) (r : FileRequest) :
    m.request r = ((m.outcome r).1, (m.trail r).foldl record (m.asked r)) := by
  simp only [request, outcome, trail, asked, noteRequest]
  cases m.shell.guard <;> rfl

/-! ### The kinds of step -/

/-- `m'` comes from `m` by steps that lines can make. -/
inductive Evolves : Machine σ → Machine σ → Prop
  | refl (m : Machine σ) : Evolves m m
  | trans {m₁ m₂ m₃ : Machine σ} (h : Evolves m₁ m₂) (h' : Evolves m₂ m₃) : Evolves m₁ m₃
  /-- The state of the shell changes; who it is and how it is guarded stays. -/
  | shell (m : Machine σ) (directory input : Bytes) (streams : Streams Endpoint)
      (context : Option Context) (scopes : List Scope) (definitions : Option Definitions)
      (attachments : List Attachment) :
      Evolves m { m with shell := { m.shell with
        directory, input, streams, context, scopes, definitions, attachments } }
  /-- The books of the process change. -/
  | books (m : Machine σ) (environment : Environment) (events : List Event)
      (history : Option History) (cells : List (Storage × CellValue))
      (sessions : List (Bytes × Nat)) (gates : List (Nat × Gate)) (cancelled : List Context)
      (plan : List Intervention) (attended : List Attendance) (suspensions : Nat)
      (notes : List (Bytes × Arguments)) (calls : List Call) :
      Evolves m { m with host := { m.host with
        environment, events, history, cells, sessions, gates, cancelled, plan, attended,
        suspensions, notes, calls } }
  /-- Bytes are read from or written to the session. -/
  | transfer (m : Machine σ) (fd : Nat) (data : Bytes) : Evolves m (m.transfer fd data)
  /-- A file operation is performed under the guard of the shell. -/
  | ask (m : Machine σ) {r : FileRequest} (hr : r.Usual) : Evolves m (m.asked r)
  /-- The handle that a file operation gives out is kept, once the operation is recorded. -/
  | keep {m n : Machine σ} {r : FileRequest} {f : OpenFile} (hr : r.Usual)
      (hf : (m.outcome r).1 = .ok (.handle f)) (h : Evolves (m.asked r) n) :
      Evolves m (n.keep f).2
  | readFile (m : Machine σ) (h count : Nat) : Evolves m (m.readFile h count).2
  | writeFile (m : Machine σ) (h : Nat) (text : Bytes) : Evolves m (m.writeFile h text).2
  | closeHandle (m : Machine σ) (h : Nat) : Evolves m (m.closeHandle h).2
  | listDirectory (m : Machine σ) (path : Bytes) : Evolves m (m.listDirectory path).2
  /-- The operator's shell takes over and gives the place back. -/
  | attend {m n : Machine σ} (h : Evolves { m with shell := m.host.operator } n)
      (attended : List Attendance) :
      Evolves m { shell := m.shell, host := { n.host with operator := n.shell, attended } }

namespace Evolves

instance : Std.Refl (@Evolves σ _) := ⟨refl⟩

instance : IsTrans (Machine σ) Evolves := ⟨fun _ _ _ => trans⟩

end Evolves

/-- What has been asked for and what has passed between shells and sessions is only added to. -/
lemma Evolves.grows {m m' : Machine σ} (h : Evolves m m') :
    m.host.requests <:+ m'.host.requests ∧ m.host.traffic <+: m'.host.traffic := by
  induction h with
  | trans _ _ ih ih' => exact ⟨ih.1.trans ih'.1, ih.2.trans ih'.2⟩
  | ask m hr => exact ⟨List.suffix_cons _ _, List.prefix_rfl⟩
  | keep _ _ _ ih => exact ⟨(List.suffix_cons _ _).trans ih.1, ih.2⟩
  | transfer m fd data => exact ⟨List.suffix_rfl, List.prefix_append _ _⟩
  | readFile m h count =>
    rw [Machine.readFile]
    split <;> exact ⟨List.suffix_rfl, List.prefix_rfl⟩
  | writeFile m h text =>
    rw [Machine.writeFile]
    split <;> exact ⟨List.suffix_rfl, List.prefix_rfl⟩
  | closeHandle m h =>
    rw [Machine.closeHandle]
    split <;> exact ⟨List.suffix_rfl, List.prefix_rfl⟩
  | attend _ _ ih => exact ih
  | _ => exact ⟨List.suffix_rfl, List.prefix_rfl⟩

/-! ### Files and events -/

section Files

variable (m : Machine σ)

lemma evolves_trip (test : Trigger → Bool) : Evolves m (m.trip test) :=
  .books m _ _ _ _ _ _ _ _ _ _ _ _

lemma evolves_record (e : Event) : Evolves m (m.record e) := by
  rw [record]
  split
  · have hevents : Evolves m { m with host := { m.host with events := m.host.events ++ [e] } } :=
      .books m _ _ _ _ _ _ _ _ _ _ _ _
    have hlog : ∀ n : Machine σ, Evolves n (n.logEvent e) := by
      intro n
      rw [logEvent]
      split
      · exact .refl n
      · exact .writeFile n _ _
    have hshow : ∀ n : Machine σ, Evolves n (n.showEvent e) := by
      intro n
      rw [showEvent]
      split
      · exact .transfer n _ _
      · exact .refl n
    exact ((hevents.trans (hlog _)).trans (hshow _)).trans (evolves_trip _ _)
  · exact .refl m

lemma evolves_trail (r : FileRequest) :
    Evolves (m.asked r) ((m.trail r).foldl record (m.asked r)) :=
  foldl_rel (fun m e => m.evolves_record e) _ _

lemma evolves_request {r : FileRequest} (hr : r.Usual) : Evolves m (m.request r).2 := by
  rw [request_eq]
  exact (Evolves.ask m hr).trans (m.evolves_trail r)

lemma evolves_openFile {r : FileRequest} (hr : r.Usual) : Evolves m (m.openFile r).2 := by
  have hrequest := m.evolves_request hr
  rw [request_eq] at hrequest
  rw [openFile, request_eq]
  split
  · rename_i h
    obtain ⟨-, rfl⟩ := Prod.mk.inj h
    exact hrequest
  · rename_i f n h
    obtain ⟨hf, rfl⟩ := Prod.mk.inj h
    exact .keep hr hf (m.evolves_trail r)
  · rename_i h
    obtain ⟨-, rfl⟩ := Prod.mk.inj h
    exact hrequest

end Files

/-! ### Streams -/

section Streams

variable (m : Machine σ)

lemma evolves_read (e : Endpoint) (count : Nat) : Evolves m (read e count m).2 := by
  have hinput : ∀ input, Evolves m { m with shell := { m.shell with input } } :=
    fun _ => .shell m _ _ _ _ _ _ _
  cases e with
  | null => exact .refl m
  | session =>
    simp only [read]
    split
    · exact (hinput _).trans (.transfer _ _ _)
    · exact hinput _
  | file h => exact .readFile m h count

lemma evolves_writeTo (fd : Nat) (e : Endpoint) (text : Bytes) :
    Evolves m (m.writeTo fd e text) := by
  cases e with
  | null => exact .refl m
  | session => exact (Evolves.transfer m fd text).trans (evolves_trip _ _)
  | file h => exact .writeFile m h text

end Streams

lemma Evolves.inputOutput : InputOutput (@Evolves σ _) where
  request m hr := m.evolves_request hr
  openFile m hr := m.evolves_openFile hr
  closeHandle h m := .closeHandle m h
  listDirectory path m := .listDirectory m path
  read e count m := m.evolves_read e count
  writeTo fd e text m := m.evolves_writeTo fd e text
  remember _ m := .books m _ _ _ _ _ _ _ _ _ _ _ _

/-! ### Answers to commands -/

lemma evolves_modifyScope (f : Scope → Scope) (m : Machine σ) : Evolves m (m.modifyScope f) := by
  rw [modifyScope]
  split
  · exact .refl m
  · exact .shell m _ _ _ _ _ _ _

lemma evolves_setErrored (errored : Bool) (m : Machine σ) : Evolves m (m.setErrored errored) :=
  evolves_modifyScope _ m

lemma evolves_setEnvironment (m : Machine σ) (e : Environment) : Evolves m (m.setEnvironment e) :=
  .books m _ _ _ _ _ _ _ _ _ _ _ _

lemma evolves_halt (m : Machine σ) : Evolves m m.halt.2 :=
  .books m _ _ _ _ _ _ _ _ _ _ _ _

lemma evolves_withdraw (m : Machine σ) (channel : Nat) : Evolves m (m.withdraw channel) :=
  .books m _ _ _ _ _ _ _ _ _ _ _ _

lemma evolves_cancel (m : Machine σ) (context : Option Context) : Evolves m (m.cancel context) := by
  cases context with
  | none => exact .refl m
  | some c => exact .books m _ _ _ _ _ _ _ _ _ _ _ _

lemma Evolves.answers : Answers (fun _ => True) (@Evolves σ _) where
  toInputOutput := Evolves.inputOutput
  move _ m := .shell m _ _ _ _ _ _ _
  books _ _ _ m := .books m _ _ _ _ _ _ _ _ _ _ _ _
  modifyScope _ _ m := evolves_modifyScope _ m
  record m _ := m.evolves_record _
  setEnvironment _ _ e m := evolves_setEnvironment m e
  clearDefinition m _ := .shell m _ _ _ _ _ _ _

end Machine

open Machine

namespace Interpreter

lemma evolves_fail (location : Location) (message : Bytes) (m : Machine σ) :
    Evolves m (fail location message m) :=
  (Evolves.inputOutput.report location message m).trans (evolves_setErrored true _)

/-- Each invocation that is started makes steps of the known kinds. -/
def Evolving (invoke : Invoke σ) : Prop :=
  ∀ context source definitions, ShellM.Maintains Evolves (invoke context source definitions)

/-! ### Lines -/

lemma evolves_detach (rs : Redirects) (location : Location) (m : Machine σ) :
    Evolves m (detach rs location m) :=
  Evolves.inputOutput.detach (fun _ m => .shell m _ _ _ _ _ _ _) rs location m

lemma evolves_record_report (location : Location) (message : Bytes) (e : Event) (m : Machine σ) :
    Evolves m ((report location message m).record e) :=
  (Evolves.inputOutput.report location message m).trans (evolves_record _ e)

/-! ### Invocations -/

lemma evolves_enter (context : Option Context) (scope : Scope) (defs : List Definition)
    (m : Machine σ) : Evolves m (enter context scope defs m) := by
  rw [enter]
  dsimp only
  split
  · exact (Evolves.shell m _ _ _ _ _ _ _).trans (.books _ _ _ _ _ _ _ _ _ _ _ _ _)
  · exact .shell m _ _ _ _ _ _ _

lemma evolves_leave (context : Option Context) (m : Machine σ) : Evolves m (leave context m) := by
  rw [leave]
  dsimp only
  split
  · exact (Evolves.shell m _ _ _ _ _ _ _).trans (.books _ _ _ _ _ _ _ _ _ _ _ _ _)
  · exact .shell m _ _ _ _ _ _ _

/-! ### Runs -/

lemma steps_evolves : Steps (@Evolves σ _) where
  openSource := Evolves.inputOutput.openSource
  readLine := Evolves.inputOutput.readLine
  closeReader := Evolves.inputOutput.closeReader
  openAll rs m := Evolves.inputOutput.openAll m.resolve rs m
  attach _ m := .shell m _ _ _ _ _ _ _
  reattached _ m := .shell m _ _ _ _ _ _ _
  detach := evolves_detach
  writeLine := Evolves.inputOutput.writeLine
  report := Evolves.inputOutput.report
  record m _ := m.evolves_record _
  setErrored := evolves_setErrored
  halt := evolves_halt
  follow _ m := .books m _ _ _ _ _ _ _ _ _ _ _ _
  withdraw channel m := evolves_withdraw m channel
  cancel context m := evolves_cancel m context
  resume m := (Evolves.answers.release _ m).trans (.books _ _ _ _ _ _ _ _ _ _ _ _ _)

lemma evolves_called (words : List Bytes) (m : Machine σ) : Evolves m (called words m) := by
  have hrecord := (m.setErrored false).evolves_record (.runCommand words)
  exact ((evolves_setErrored false m).trans hrecord).trans (.books _ _ _ _ _ _ _ _ _ _ _ _ _)

lemma conduct_evolves : Conduct Evolves Evolves fun _ => @Evolves σ _ where
  steps := steps_evolves
  lift h := h
  call hinvoke := fun _ _ hperform =>
    (evolves_called _ _).trans (Evolves.answers.perform hinvoke _ _ _ _ hperform)
  input h := h
  attend _ h := .attend h _
  unread _ h := h
  whole hopened _ hlines hclosed :=
    ((hopened.trans (evolves_enter _ _ _ _)).trans hlines).trans
      ((evolves_leave _ _).trans hclosed)

/-- Every invocation makes steps of the known kinds, however deeply invocations nest in it. -/
lemma evolving_invoke (fuel : Nat) : Evolving (invoke fuel : Invoke σ) :=
  conduct_evolves.invoke fuel

lemma evolves_callAttached {invoke : Invoke σ} (hinvoke : Evolving invoke)
    (c : Command CommandBody) (args : Arguments) (words : List Bytes) (rs : Redirects)
    (location : Location) :
    ShellM.Maintains Evolves (callAttached invoke c args words rs location) := by
  intro m rs' m' hrun
  refine conduct_evolves.callAttached (fun hperform => ?_) hrun
  exact (evolves_called _ _).trans (Evolves.answers.perform hinvoke _ _ _ _ hperform)

end Interpreter

namespace Machine

/-- Running a script, the console or a single line makes steps of the known kinds. -/
lemma evolves_run {m m' : Machine σ} {fuel : Nat} {context : Option Context}
    {definitions : Bytes} {o : Outcome}
    (h : (∃ path, m.load fuel context path definitions = some (o, m')) ∨
      ∃ line, m.runLine fuel context line definitions = some (o, m')) : Evolves m m' := by
  have hinvoke : Interpreter.Evolving (Interpreter.invoke fuel : Interpreter.Invoke σ) :=
    Interpreter.evolving_invoke fuel
  rcases h with ⟨path, h⟩ | ⟨line, h⟩
  · exact Evolves.answers.load hinvoke context path definitions m o m' h
  · exact hinvoke context (.line line) definitions m o m' h

end Machine

end ConsoleShell
