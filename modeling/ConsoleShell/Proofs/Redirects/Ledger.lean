/-
Files with a ledger.

Redirections ask files for two things only: to open a path and to close what is open.  A ledger
lists what was asked for, in order and with the answers.  It is kept beside the files and has no
influence on them, so what redirections do to files of any kind can be read off the ledger, and
replaying the ledger brings the files to where they are.
-/
import ConsoleShell.Proofs.Shell.Redirection

namespace ConsoleShell

/-! ### Maps between files -/

namespace Files

variable {σ τ : Type} [Files σ] [Files τ] {f : σ → τ}

/-- A map between states that opening and closing files do not notice. -/
structure Maps (f : σ → τ) : Prop where
  openPath : ∀ path flags s, Files.openPath path flags (f s) =
    ((Files.openPath path flags s).1, f (Files.openPath path flags s).2)
  closeFile : ∀ file s, Files.closeFile file (f s) =
    ((Files.closeFile file s).1, f (Files.closeFile file s).2)

namespace Maps

open Redirects

lemma close (hf : Maps f) (rs : Redirects) (s : σ) :
    rs.close (f s) = ((rs.close s).1, (rs.close s).2.1, f (rs.close s).2.2) := by
  induction rs generalizing s with
  | nil => rfl
  | cons a rs ih =>
    cases ha : a.handle with
    | none => simp only [Redirects.close, ha, ih]
    | some h => simp only [Redirects.close, ha, hf.closeFile, ih]

lemma openTarget (hf : Maps f) (resolve : Bytes → Bytes) (a : Attachment) (s : σ) :
    Redirects.openTarget resolve a (f s) =
      ((Redirects.openTarget resolve a s).1, f (Redirects.openTarget resolve a s).2) := by
  simp only [Redirects.openTarget, hf.openPath]
  split_ifs
  · rfl
  · rfl
  · rcases Files.openPath (resolve a.redirection.name) a.redirection.mode.flags s with
      ⟨_ | _, _⟩ <;> rfl

lemma openTargets (hf : Maps f) (resolve : Bytes → Bytes) (rs : Redirects) (s : σ) :
    rs.openTargets resolve (f s) =
      ((rs.openTargets resolve s).1, (rs.openTargets resolve s).2.1,
        f (rs.openTargets resolve s).2.2) := by
  induction rs generalizing s with
  | nil => rfl
  | cons a rs ih =>
    rw [Redirects.openTargets, Redirects.openTargets, hf.openTarget]
    rcases Redirects.openTarget resolve a s with ⟨_ | _, t⟩
    · rfl
    · simp only [ih]

lemma openAll (hf : Maps f) (resolve : Bytes → Bytes) (rs : Redirects) (s : σ) :
    rs.openAll resolve (f s) =
      ((rs.openAll resolve s).1, (rs.openAll resolve s).2.1, f (rs.openAll resolve s).2.2) := by
  rw [Redirects.openAll, Redirects.openAll, hf.openTargets]
  rcases Redirects.openTargets resolve rs s with ⟨_ | _, rs', t⟩
  · rfl
  · simp only [hf.close]

end Maps

end Files

/-! ### Files of a machine -/

namespace Machine

variable {σ : Type}

/-- The machine with other streams. -/
def withStreams (streams : Streams Endpoint) (m : Machine σ) : Machine σ :=
  { m with shell := { m.shell with streams } }

variable (streams : Streams Endpoint)

lemma showEvent_withStreams (e : Event) (m : Machine σ) :
    (m.withStreams streams).showEvent e = (m.showEvent e).withStreams streams := by
  have hshown : (m.withStreams streams).host = m.host := rfl
  simp only [showEvent, hshown]
  split_ifs <;> rfl

variable [FileBase σ]

lemma logEvent_withStreams (e : Event) (m : Machine σ) :
    (m.withStreams streams).logEvent e = (m.logEvent e).withStreams streams := by
  cases hlog : m.host.eventLog with
  | none => simp [logEvent, withStreams, hlog]
  | some h =>
    cases hfile : m.host.handles[h]? <;>
      simp [logEvent, withStreams, writeFile, setFile, hlog, hfile]

lemma record_withStreams (e : Event) (m : Machine σ) :
    (m.withStreams streams).record e = (m.record e).withStreams streams := by
  cases hrecorded : m.shell.recorded with
  | false => simp [record, withStreams, hrecorded]
  | true =>
    have hrecorded' : (m.withStreams streams).shell.recorded = true := hrecorded
    -- the event is logged and shown before contexts are cancelled
    have hshown := showEvent_withStreams streams e
      (logEvent { m with host := { m.host with events := m.host.events ++ [e] } } e)
    rw [← logEvent_withStreams] at hshown
    simp only [record, if_pos hrecorded, if_pos hrecorded']
    exact congrArg (fun n => n.trip fun t => t.recorded.any fun text =>
      Bytes.hasInfix text (e.jsonLine [] none)) hshown

lemma foldl_record_withStreams (events : List Event) (m : Machine σ) :
    events.foldl record (m.withStreams streams) = (events.foldl record m).withStreams streams := by
  induction events generalizing m with
  | nil => rfl
  | cons e events ih => rw [List.foldl_cons, record_withStreams, ih, List.foldl_cons]

lemma request_withStreams (r : FileRequest) (m : Machine σ) :
    (m.withStreams streams).request r = ((m.request r).1, (m.request r).2.withStreams streams) := by
  cases hguard : m.shell.guard with
  | none =>
    have hguard' : (m.withStreams streams).shell.guard = .none := hguard
    simp only [request, noteRequest, hguard, hguard']
    rfl
  | session readOnly =>
    have hguard' : (m.withStreams streams).shell.guard = .session readOnly := hguard
    simp only [request, noteRequest, hguard, hguard']
    exact congrArg (Prod.mk _) (foldl_record_withStreams streams _ { m with host := { m.host with
      requests := r :: m.host.requests
      store := (AuditedStore.perform ⟨m.host.store, []⟩ (sessionAuditor readOnly) r).2.store } })

/-- Files do not depend on where streams lead. -/
lemma maps_withStreams : Files.Maps (withStreams streams : Machine σ → Machine σ) where
  openPath path flags m := by
    simp only [openPath_eq, openFile, request_withStreams]
    rcases m.request (.openFile path flags) with ⟨_ | answer, n⟩
    · rfl
    · cases answer <;> rfl
  closeFile h m := by
    simp only [closeFile_eq, closeHandle]
    cases hfile : m.host.handles[h]? <;> simp [withStreams, hfile, setFile]

end Machine

/-! ### Ledgers -/

/-- Something that files were asked for, with the answer. -/
inductive FileCall where
  | opened (path : Bytes) (flags : OpenFlags) (answer : Except FileFault Nat)
  | closed (file : Nat) (fault : Option FileFault)

/-- Files with what they were asked for, in order. -/
structure Ledger (σ : Type) where
  files : σ
  calls : List FileCall := []

variable {σ : Type} [Files σ]

instance : Files (Ledger σ) where
  openPath path flags s :=
    let (answer, files) := Files.openPath path flags s.files
    (answer, ⟨files, s.calls ++ [.opened path flags answer]⟩)
  closeFile file s :=
    let (fault, files) := Files.closeFile file s.files
    (fault, ⟨files, s.calls ++ [.closed file fault]⟩)

namespace Ledger

/-- Asks files for something again. -/
def ask (s : σ) : FileCall → σ
  | .opened path flags _ => (Files.openPath path flags s).2
  | .closed file _ => (Files.closeFile file s).2

/-- Asks files for everything in a list again. -/
def replay (calls : List FileCall) (s : σ) : σ := calls.foldl ask s

/-- The ledger goes on, and the files with it. -/
def extend (l : Ledger σ) (calls : List FileCall) : Ledger σ :=
  ⟨replay calls l.files, l.calls ++ calls⟩

@[simp] lemma extend_nil (l : Ledger σ) : l.extend [] = l := by
  simp [extend, replay]

@[simp] lemma extend_extend (l : Ledger σ) (calls calls' : List FileCall) :
    (l.extend calls).extend calls' = l.extend (calls ++ calls') := by
  simp [extend, replay, List.append_assoc]

lemma openPath_eq (path : Bytes) (flags : OpenFlags) (l : Ledger σ) :
    Files.openPath path flags l = ((Files.openPath path flags l.files).1,
      l.extend [.opened path flags (Files.openPath path flags l.files).1]) := rfl

lemma closeFile_eq (file : Nat) (l : Ledger σ) :
    Files.closeFile file l = ((Files.closeFile file l.files).1,
      l.extend [.closed file (Files.closeFile file l.files).1]) := rfl

/-- Files behave as if no ledger was kept. -/
lemma maps_files : Files.Maps (Ledger.files : Ledger σ → σ) where
  openPath _ _ _ := rfl
  closeFile _ _ := rfl

end Ledger

/-! ### Closing targets -/

namespace Redirects

/-- A target that was closed: its name, the number of its file, and the failure if it could not
be closed. -/
structure Closing where
  name : Bytes
  file : Nat
  fault : Option FileFault

/-- What the files were asked for. -/
def Closing.call (c : Closing) : FileCall := .closed c.file c.fault

/-- What is reported. -/
def Closing.fault? (c : Closing) : Option ClosingFault := c.fault.map fun f => ⟨c.name, f.reason⟩

/-- The open targets with their names. -/
def targets (rs : Redirects) : List (Bytes × Nat) :=
  rs.filterMap fun a => a.handle.map fun h => (a.redirection.name, h)

/-- Without open targets. -/
def shut (rs : Redirects) : Redirects := rs.map fun a => { a with handle := none }

/-- Every open target is closed once, in order, and all failures are reported. -/
lemma close_ledger (rs : Redirects) (l : Ledger σ) :
    ∃ closings : List Closing, closings.map (fun c => (c.name, c.file)) = rs.targets ∧
      rs.close l =
        (closings.filterMap Closing.fault?, rs.shut, l.extend (closings.map Closing.call)) := by
  induction rs generalizing l with
  | nil => exact ⟨[], rfl, by simp [close, shut]⟩
  | cons a rs ih =>
    obtain ⟨r, handle, saved⟩ := a
    cases handle with
    | none =>
      obtain ⟨closings, htargets, hclose⟩ := ih l
      exact ⟨closings, by simpa [targets] using htargets, by simp [close, hclose, shut]⟩
    | some h =>
      obtain ⟨closings, htargets, hclose⟩ := ih (Files.closeFile h l).2
      refine ⟨⟨r.name, h, (Files.closeFile h l.files).1⟩ :: closings, ?_, ?_⟩
      · simpa [targets] using htargets
      · rw [Ledger.closeFile_eq] at hclose
        simp only [close, Ledger.closeFile_eq, hclose, shut, Closing.call, List.map_cons,
          Ledger.extend_extend, List.singleton_append]
        cases (Files.closeFile h l.files).1 <;> rfl

end Redirects

end ConsoleShell
