/-
Two runs of which one has its output diverted to a file.

Suppose two machines do the same, but in the first one what a shell would write to the output of
its session goes to a file of its own.  Then the first machine has one more open file, so that
files opened later have other numbers; its own file holds what the other machine has written to
that output since; and everything else is equal.  This file describes the first machine as a
function of the second, of the part the running shell plays, and of a remainder that nothing
depends on, and shows that every step of input and output keeps the two in this relation, as
long as the second machine asks for nothing that would notice the file.
-/
import ConsoleShell.Proofs.Commands.Plain
import ConsoleShell.Proofs.File.Overlay
import ConsoleShell.Proofs.Shell.Evolution

namespace ConsoleShell

/-! ### File operations on stores that differ in one file -/

namespace FileStore

variable {s t : FileStore} {k : Bytes} {n : Node} {r : FileRequest}

/-- What a shell asks for does not change how paths are turned into keys. -/
lemma key_perform (hr : r.Usual) : (t.perform r).2.key = t.key := by
  cases hr with
  | stat p => rfl
  | «open» p =>
    simp only [FileStore.perform]
    split <;> rfl
  | target p mode =>
    simp only [FileStore.perform]
    split
    · rename_i h
      exact key_openFile h
    · rfl

/-- What a shell asks for is answered alike if it misses the key, the difference stays, and what
is opened is another file. -/
lemma Overlaid.perform (h : Overlaid t k n s) (hr : r.Usual)
    (hmiss : ∀ q ∈ r.inquiries, t.Misses k q.path) :
    (s.perform r).1 = (t.perform r).1 ∧ Overlaid (t.perform r).2 k n (s.perform r).2 ∧
      ∀ f, (t.perform r).1 = .ok (.handle f) → t.key f.path ≠ k := by
  cases hr with
  | stat p =>
    have hp : t.Misses k p := hmiss _ (List.mem_singleton_self _)
    refine ⟨?_, h, fun f hf => ?_⟩
    · simp only [FileStore.perform, h.stat hp, h.key]
    · simp only [FileStore.perform] at hf
      cases hstat : t.stat p <;> simp [hstat, Except.map] at hf
  | «open» p =>
    have hp : t.Misses k p := hmiss _ (List.mem_singleton_self _)
    simp only [FileStore.perform, h.entry hp, h.key]
    split
    · refine ⟨rfl, h, fun f hf => ?_⟩
      cases hf
      exact hp.find_key h.anchored
    · exact ⟨rfl, h, fun f hf => by cases hf⟩
  | target p mode =>
    have hp : t.Misses k p := hmiss _ (List.mem_singleton_self _)
    simp only [FileStore.perform, h.key, h.medium]
    rcases h.openFile hp mode.flags with ⟨f, ht, hs⟩ | ⟨t', s', position, ht, hs, h'⟩
    · rw [ht, hs]
      exact ⟨rfl, h, fun f hf => by cases hf⟩
    · rw [ht, hs]
      refine ⟨rfl, h', fun f hf => ?_⟩
      cases hf
      exact hp.find_key h.anchored

end FileStore

/-- Whether an operation is refused does not depend on the files. -/
lemma AuditedStore.asked_perform (s t : FileStore) (a : Auditor) (r : FileRequest) :
    (AuditedStore.perform ⟨s, []⟩ a r).2.asked = (AuditedStore.perform ⟨t, []⟩ a r).2.asked := by
  rw [AuditedStore.perform_eq, AuditedStore.perform_eq]
  dsimp only
  split <;> rfl

namespace FileStore

variable {s t : FileStore} {k : Bytes} {n : Node} {r : FileRequest}

/-- The same under an auditor. -/
lemma Overlaid.audited (h : Overlaid t k n s) (hr : r.Usual)
    (hmiss : ∀ q ∈ r.inquiries, t.Misses k q.path) (a : Auditor) :
    (AuditedStore.perform ⟨s, []⟩ a r).1 = (AuditedStore.perform ⟨t, []⟩ a r).1 ∧
      Overlaid (AuditedStore.perform ⟨t, []⟩ a r).2.store k n
        (AuditedStore.perform ⟨s, []⟩ a r).2.store ∧
      ∀ f, (AuditedStore.perform ⟨t, []⟩ a r).1 = .ok (.handle f) → t.key f.path ≠ k := by
  rw [AuditedStore.perform_eq, AuditedStore.perform_eq]
  dsimp only
  split
  · exact ⟨rfl, h, fun f hf => by cases hf⟩
  · exact h.perform hr hmiss

end FileStore

/-! ### What is diverted, and who notices -/

/-- The output of a shell is diverted to a file of its own. -/
structure Diversion where
  /-- Whose output is diverted. -/
  shell : Nat
  /-- The key of the file. -/
  file : Bytes
  /-- The number of the file among the open files. -/
  handle : Nat
  /-- The files at the start. -/
  files : FileStore
  /-- What had passed between shells and sessions at the start. -/
  traffic : List Transfer
  /-- The file operations that had been asked for at the start. -/
  asked : List FileRequest
  /-- Numbers of files that were open at the start and may be the file itself. -/
  stale : List Nat
  older : ∀ h ∈ stale, h < handle
  /-- Some console completes what is typed. -/
  typed : Prop

/-- The part that the running shell plays. -/
inductive Part where
  /-- It is another shell, whose output is not diverted. -/
  | bystander
  /-- Its file is open, and its output is still to be led there. -/
  | waiting
  /-- Its output leads to its file. -/
  | diverted
  /-- Its file has been closed. -/
  | finished
  deriving DecidableEq

/-- The output of the running shell is diverted, or it is not its output that is. -/
def Part.IsActive (part : Part) : Prop := part = .bystander ∨ part = .diverted

/-- The operation names no path at a key or below it, and where completion lists directories it
does not open the directory of the key. -/
def FileRequest.Ignores (r : FileRequest) (s : FileStore) (k : Bytes) (typed : Prop) : Prop :=
  (∀ q ∈ r.inquiries, s.Misses k q.path) ∧
    (typed → ∀ p, r = .open p → FileStore.normalize (Path.directory k) ≠ s.key p)

/-- A console of the process completes what is typed. -/
def Machine.Types (m : Machine) : Prop :=
  ∃ n, m.shell.console = .terminal n ∨ m.host.operator.console = .terminal n

namespace Diversion

variable (d : Diversion)

/-- The number in the diverted machine of a file of the other. -/
def shift (h : Nat) : Nat := if h < d.handle then h else h + 1

/-- Where a stream leads in the diverted machine that leads to an endpoint in the other. -/
def lead (part : Part) (fd : Nat) : Endpoint → Endpoint
  | .session => if part = .diverted ∧ fd = 1 then .file d.handle else .session
  | .null => .null
  | .file h => .file (d.shift h)

/-- The streams of a shell in the diverted machine. -/
def leadAll (part : Part) (s : Streams Endpoint) : Streams Endpoint :=
  ⟨d.lead part 0 s.input, d.lead part 1 s.output, d.lead part 2 s.error⟩

/-- The transfer is one that is diverted. -/
def takes (t : Transfer) : Bool := t.shell == d.shell && t.fd == 1

/-- The bytes that are diverted. -/
def text (ts : List Transfer) : Bytes := (ts.filter d.takes).flatMap Transfer.data

/-- The open file that the output is diverted to. -/
def own (part : Part) (ts : List Transfer) : OpenFile where
  path := d.file
  position := (d.text ts).length
  closed := part == .finished

/-- The second machine has not asked for anything that would notice the file. -/
def Quiet (m : Machine) : Prop :=
  ∀ new, m.host.requests = new ++ d.asked → ∀ r ∈ new, r.Ignores d.files d.file d.typed

/-- The endpoint is not the file itself, opened earlier. -/
def Sound (e : Endpoint) : Prop := ∀ h ∈ d.stale, e ≠ .file h

end Diversion

/-! ### The diverted machine -/

/-- What a diverted machine has of its own and nothing depends on, and what has passed since
the start. -/
structure Remainder where
  attachments : List Attachment
  /-- The redirections of the operator's line. -/
  operated : List Attachment
  store : FileStore
  events : List Event
  requests : List FileRequest
  calls : List Call
  /-- What has passed between shells and sessions in the other machine. -/
  passed : List Transfer

/-- The diverted machine that belongs to a machine. -/
def Machine.mirrored (m : Machine) (d : Diversion) (part : Part) (ρ : Remainder) : Machine where
  shell := { m.shell with
    streams := d.leadAll part m.shell.streams, attachments := ρ.attachments }
  host := { m.host with
    operator := { m.host.operator with
      streams := d.leadAll .bystander m.host.operator.streams, attachments := ρ.operated }
    store := ρ.store
    handles := m.host.handles.insertIdx d.handle (d.own part ρ.passed)
    events := ρ.events
    traffic := d.traffic ++ ρ.passed.filter fun t => !d.takes t
    requests := ρ.requests
    calls := ρ.calls }

/-- What the relation looks at of a shell. -/
structure Face where
  id : Nat
  console : Console
  streams : Streams Endpoint

/-- What the relation looks at of a machine. -/
structure View where
  shell : Face
  operator : Face
  table : CommandTable
  store : FileStore
  handles : List OpenFile
  failing : List Bytes
  eventLog : Option Nat
  triggers : List Trigger
  traffic : List Transfer
  requests : List FileRequest

/-- What the relation looks at of a shell. -/
def Shell.face (s : Shell) : Face := ⟨s.id, s.console, s.streams⟩

/-- What the relation looks at of a machine. -/
def Machine.view (m : Machine) : View where
  shell := m.shell.face
  operator := m.host.operator.face
  table := m.host.table
  store := m.host.store
  handles := m.host.handles
  failing := m.host.failing
  eventLog := m.host.eventLog
  triggers := m.host.triggers
  traffic := m.host.traffic
  requests := m.host.requests

/-- No stream leads to the file itself. -/
def Diversion.SoundAll (d : Diversion) (s : Streams Endpoint) : Prop :=
  ∀ fd e, s.get? fd = some e → d.Sound e

/-- The streams of a shell do not lead to the file itself. -/
structure Diversion.Suits (d : Diversion) (f : Face) : Prop where
  streams : d.SoundAll f.streams
  typed : ∀ n, f.console = .terminal n → d.typed

/-- The part fits the number of the running shell. -/
def Part.Belongs (d : Diversion) (id : Nat) : Part → Prop
  | .bystander => id ≠ d.shell
  | _ => id = d.shell

/-- The remainder fits the other machine. -/
structure Diversion.Fits (d : Diversion) (part : Part) (ρ : Remainder) (v : View) : Prop where
  shell : d.Suits v.shell
  operator : d.Suits v.operator
  running : part.Belongs d v.shell.id
  other : v.operator.id ≠ d.shell
  /-- The files are the same but for the one that holds what has been diverted. -/
  file : ∃ n : Node, n.data = d.text ρ.passed ∧ v.store.Overlaid d.file n ρ.store
  key : v.store.key = d.files.key
  handles : d.handle ≤ v.handles.length
  stale : ∀ h f, v.handles[h]? = some f → v.store.key f.path = d.file → h ∈ d.stale
  failing : d.file ∉ v.failing
  /-- Events are not written to the file. -/
  eventLog : ∀ h, v.eventLog = some h → h < d.handle ∧ h ∉ d.stale
  triggers : ∀ t ∈ v.triggers, t.written = none ∧ t.recorded = none
  table : CommandTable.Plain v.table
  traffic : v.traffic = d.traffic ++ ρ.passed
  requests : d.asked <:+ v.requests

/-- The first machine is the second one with its output diverted. -/
def Diversion.Twin (d : Diversion) (part : Part) (m₁ m₂ : Machine) : Prop :=
  ∃ ρ, m₁ = m₂.mirrored d part ρ ∧ d.Fits part ρ m₂.view

/-- What does not depend on what is diverted is the same in both machines. -/
lemma Diversion.Twin.same {d : Diversion} {part : Part} {m₁ m₂ : Machine}
    (h : d.Twin part m₁ m₂) {α : Type} {f : Machine → α}
    (hf : ∀ ρ, f (m₂.mirrored d part ρ) = f m₂) : f m₁ = f m₂ := by
  obtain ⟨ρ, rfl, -⟩ := h
  exact hf ρ

/-! ### Open files -/

namespace Diversion

variable {d : Diversion} {part : Part}

lemma shift_of_lt {h : Nat} (hh : h < d.handle) : d.shift h = h := if_pos hh

lemma getElem?_shift (hs : List OpenFile) (f : OpenFile) (h : Nat) :
    (hs.insertIdx d.handle f)[d.shift h]? = hs[h]? := by
  rw [shift]
  split_ifs with hlt
  · exact List.getElem?_insertIdx_of_lt hlt
  · rw [List.getElem?_insertIdx_of_gt (by omega), Nat.add_sub_cancel]

lemma set_shift (hs : List OpenFile) (f g : OpenFile) (h : Nat) :
    (hs.insertIdx d.handle f).set (d.shift h) g = (hs.set h g).insertIdx d.handle f := by
  have hshift : ∀ i, i ≠ d.handle → ∃ j, i = d.shift j := by
    intro i hi
    rcases Nat.lt_or_gt_of_ne hi with hi | hi
    · exact ⟨i, (shift_of_lt hi).symm⟩
    · exact ⟨i - 1, by rw [shift, if_neg (by omega)]; omega⟩
  have hne : ∀ j, d.shift j ≠ d.handle := by
    intro j
    rw [shift]
    split_ifs <;> omega
  have hinj : ∀ i j, d.shift i = d.shift j ↔ i = j := by
    intro i j
    rw [shift, shift]
    split_ifs <;> omega
  refine List.ext_getElem? fun i => ?_
  by_cases hi : i = d.handle
  · rw [hi, List.getElem?_set_ne (hne h), List.getElem?_insertIdx_self,
      List.getElem?_insertIdx_self, List.length_set]
  · obtain ⟨j, rfl⟩ := hshift i hi
    rw [getElem?_shift]
    by_cases hj : h = j
    · subst hj
      rw [List.getElem?_set_self', List.getElem?_set_self', getElem?_shift]
    · rw [List.getElem?_set_ne (fun heq => hj ((hinj h j).1 heq)), List.getElem?_set_ne hj,
        getElem?_shift]

lemma set_own (hs : List OpenFile) (f g : OpenFile) :
    (hs.insertIdx d.handle f).set d.handle g = hs.insertIdx d.handle g := by
  refine List.ext_getElem? fun i => ?_
  by_cases hi : d.handle = i
  · subst hi
    rw [List.getElem?_set_self', List.getElem?_insertIdx_self, List.getElem?_insertIdx_self]
    split_ifs <;> rfl
  · rw [List.getElem?_set_ne hi, List.getElem?_insertIdx, List.getElem?_insertIdx,
      if_neg (Ne.symm hi), if_neg (Ne.symm hi)]

lemma insertIdx_append {hs : List OpenFile} (hle : d.handle ≤ hs.length) (f g : OpenFile) :
    hs.insertIdx d.handle f ++ [g] = (hs ++ [g]).insertIdx d.handle f := by
  refine List.ext_getElem? fun i => ?_
  simp only [List.getElem?_append, List.getElem?_insertIdx, List.length_insertIdx, if_pos hle,
    List.length_append, List.length_singleton]
  split_ifs <;> first | rfl | omega | (congr 1; omega)

end Diversion

namespace Machine

/-- Replaces the files. -/
def withStore (m : Machine) (store : FileStore) : Machine :=
  { m with host := { m.host with store } }

/-- Writing to an open file moves its position and changes the files. -/
lemma writeFile_of_open {m : Machine} {i : Nat} {f : OpenFile} (hf : m.host.handles[i]? = some f)
    (text : Bytes) : m.writeFile i text =
      ((f.write m.host.store text).1,
        (m.setFile i (f.write m.host.store text).2.1 m.host.store).withStore
          (f.write m.host.store text).2.2) := by
  rw [writeFile, hf]
  rfl

/-! ### Events -/

lemma trip_of_silent {m : Machine} {test : Trigger → Bool}
    (h : ∀ t ∈ m.host.triggers, test t = false) : m.trip test = m := by
  have hnone : m.host.triggers.filter test = [] :=
    List.filter_eq_nil_iff.2 fun t ht => by simp [h t ht]
  rw [trip, hnone]
  rfl

end Machine

namespace Diversion

open Machine

variable {d : Diversion} {part : Part} {m₁ m₂ : Machine}

/-! ### Open files in both machines -/

/-- Keeping another file: its number, and that it is another one. -/
lemma Twin.keep (h : d.Twin part m₁ m₂) {f : OpenFile} (hf : d.files.key f.path ≠ d.file) :
    (m₁.keep f).1 = d.shift (m₂.keep f).1 ∧ d.Twin part (m₁.keep f).2 (m₂.keep f).2 ∧
      (m₂.keep f).1 ∉ d.stale := by
  obtain ⟨ρ, rfl, hρ⟩ := h
  have hle : d.handle ≤ m₂.host.handles.length := hρ.handles
  refine ⟨?_, ⟨ρ, ?_, ?_⟩, fun hstale => ?_⟩
  · show (m₂.host.handles.insertIdx d.handle _).length = d.shift m₂.host.handles.length
    rw [List.length_insertIdx, if_pos hle, shift, if_neg (by omega)]
  · simp only [Machine.keep, mirrored, insertIdx_append hle]
  · exact
      { hρ with
        handles := hle.trans (by simp [Machine.keep, Machine.view])
        stale := by
          intro i g hg hpath
          have hg' : (m₂.host.handles ++ [f])[i]? = some g := hg
          rw [List.getElem?_append] at hg'
          split_ifs at hg' with hi
          · exact hρ.stale i g hg' hpath
          · obtain rfl := List.mem_singleton.1 (List.mem_of_getElem? hg')
            exact absurd ((congrFun hρ.key _).symm.trans hpath) hf }
  · have holder := d.older _ hstale
    have hlength : (m₂.keep f).1 = m₂.host.handles.length := rfl
    omega

lemma Twin.getElem?_handles (h : d.Twin part m₁ m₂) (i : Nat) :
    m₁.host.handles[d.shift i]? = m₂.host.handles[i]? := by
  obtain ⟨ρ, rfl, -⟩ := h
  exact getElem?_shift _ _ i

/-- An open file changes, and the files stay. -/
lemma Twin.setFile (h : d.Twin part m₁ m₂) {i : Nat} {f g : OpenFile}
    (hf : m₂.host.handles[i]? = some f) (hpath : g.path = f.path) :
    d.Twin part (m₁.setFile (d.shift i) g m₁.host.store) (m₂.setFile i g m₂.host.store) := by
  obtain ⟨ρ, rfl, hρ⟩ := h
  refine ⟨ρ, ?_, ?_⟩
  · simp only [Machine.setFile, mirrored, set_shift]
  · exact
      { hρ with
        handles := by
          show d.handle ≤ (m₂.host.handles.set i g).length
          rw [List.length_set]
          exact hρ.handles
        stale := by
          intro j x hx hkey
          have hx' : (m₂.host.handles.set i g)[j]? = some x := hx
          rw [List.getElem?_set] at hx'
          split_ifs at hx' with hij
          · subst hij
            obtain rfl := Option.some.inj hx'
            exact hρ.stale i f hf (by rw [← hpath]; exact hkey)
          · exact hρ.stale j x hx' hkey }

lemma Twin.closeHandle (h : d.Twin part m₁ m₂) (i : Nat) :
    (m₁.closeHandle (d.shift i)).1 = (m₂.closeHandle i).1 ∧
      d.Twin part (m₁.closeHandle (d.shift i)).2 (m₂.closeHandle i).2 := by
  have hfailing : m₁.host.failing = m₂.host.failing := by
    obtain ⟨ρ, rfl, -⟩ := h
    rfl
  rw [Machine.closeHandle, Machine.closeHandle, h.getElem?_handles, hfailing]
  split
  · exact ⟨rfl, h⟩
  · rename_i f hf
    exact ⟨rfl, h.setFile hf rfl⟩

/-- An open file that is not the file itself has another key. -/
lemma Twin.key_ne (h : d.Twin part m₁ m₂) {i : Nat} {f : OpenFile} (hi : i ∉ d.stale)
    (hf : m₂.host.handles[i]? = some f) : m₂.host.store.key f.path ≠ d.file := by
  obtain ⟨ρ, -, hρ⟩ := h
  exact fun heq => hi (hρ.stale i f hf heq)

lemma Twin.writeFile (h : d.Twin part m₁ m₂) {i : Nat} (hi : i ∉ d.stale) (text : Bytes) :
    (m₁.writeFile (d.shift i) text).1 = (m₂.writeFile i text).1 ∧
      d.Twin part (m₁.writeFile (d.shift i) text).2 (m₂.writeFile i text).2 := by
  cases hf : m₂.host.handles[i]? with
  | none =>
    rw [Machine.writeFile, Machine.writeFile, h.getElem?_handles, hf]
    exact ⟨rfl, h⟩
  | some f =>
    have hf' : m₁.host.handles[d.shift i]? = some f := by rw [h.getElem?_handles, hf]
    have hother := h.key_ne hi hf
    obtain ⟨position, hhandle⟩ := f.write_handle m₂.host.store text
    have hset := h.setFile (g := (f.write m₂.host.store text).2.1) hf (by rw [hhandle])
    rw [writeFile_of_open hf, writeFile_of_open hf']
    obtain ⟨ρ, heq, hρ⟩ := hset
    obtain ⟨n, hdata, hstore⟩ := hρ.file
    have hfiles : m₁.host.store = ρ.store := congrArg (fun m => m.host.store) heq
    rw [hfiles] at heq
    obtain ⟨hanswer, hfile, hwritten⟩ := OpenFile.write_overlaid hstore hother text
    have hfile' : (f.write ρ.store text).2.1 = (f.write m₂.host.store text).2.1 := hfile
    have hkey : (f.write m₂.host.store text).2.2.key = m₂.host.store.key :=
      funext fun p => f.key_write m₂.host.store text p
    rw [hfiles, hfile', heq]
    exact ⟨hanswer, { ρ with store := (f.write ρ.store text).2.2 }, rfl,
      { hρ with
        file := ⟨n, hdata, hwritten⟩
        key := hkey.trans hρ.key
        stale := fun j x hx hpath =>
          hρ.stale j x hx ((congrFun hkey x.path).symm.trans hpath) }⟩

/-! ### What passes between a shell and its session -/

/-- Nothing else than the diverted output is kept from the session. -/
lemma Fits.filter_append {ρ : Remainder} {t : Transfer} (ht : d.takes t = false) :
    (ρ.passed ++ [t]).filter (fun t => !d.takes t) =
        ρ.passed.filter (fun t => !d.takes t) ++ [t] ∧
      d.text (ρ.passed ++ [t]) = d.text ρ.passed := by
  simp [text, List.filter_append, ht]

/-- What passes between a shell and its session passes alike, unless it is diverted. -/
lemma Twin.transfer (h : d.Twin part m₁ m₂) {fd : Nat} (hfd : fd ≠ 1 ∨ part = .bystander)
    (data : Bytes) : d.Twin part (m₁.transfer fd data) (m₂.transfer fd data) := by
  obtain ⟨ρ, rfl, hρ⟩ := h
  have htakes : d.takes ⟨m₂.shell.id, fd, data⟩ = false := by
    rcases hfd with hfd | rfl
    · simp [takes, hfd]
    · have hid : m₂.shell.id ≠ d.shell := hρ.running
      simp [takes, hid]
  obtain ⟨hfilter, htext⟩ := Fits.filter_append (ρ := ρ) htakes
  refine ⟨{ ρ with passed := ρ.passed ++ [⟨m₂.shell.id, fd, data⟩] }, ?_, ?_⟩
  · simp only [Machine.transfer, mirrored, hfilter, own, htext, List.append_assoc]
  · exact
      { hρ with
        file := by rw [htext]; exact hρ.file
        traffic := by
          show m₂.host.traffic ++ _ = _
          rw [← List.append_assoc, ← hρ.traffic]
          rfl }

/-- What is diverted goes to the end of the file. -/
lemma Twin.divert (h : d.Twin .diverted m₁ m₂) (text : Bytes) :
    d.Twin .diverted (m₁.writeFile d.handle text).2 (m₂.transfer 1 text) := by
  obtain ⟨ρ, rfl, hρ⟩ := h
  obtain ⟨n, hdata, hstore⟩ := hρ.file
  have hid : m₂.shell.id = d.shell := hρ.running
  have htakes : d.takes ⟨m₂.shell.id, 1, text⟩ = true := by simp [takes, hid]
  have hopen : (m₂.mirrored d .diverted ρ).host.handles[d.handle]? =
      some { path := d.file, position := n.data.length } := by
    show (m₂.host.handles.insertIdx d.handle (d.own .diverted ρ.passed))[d.handle]? = _
    have hle : d.handle ≤ m₂.host.handles.length := hρ.handles
    rw [List.getElem?_insertIdx_self, if_pos hle, hdata]
    rfl
  obtain ⟨hwrite, hwritten⟩ := OpenFile.write_overlaid_self hstore text
  have htext : d.text (ρ.passed ++ [⟨m₂.shell.id, 1, text⟩]) = n.data ++ text := by
    simp [Diversion.text, List.filter_append, htakes, hdata]
  rw [writeFile_of_open hopen, show (m₂.mirrored d .diverted ρ).host.store = ρ.store from rfl,
    hwrite]
  refine ⟨{ ρ with
    store := ρ.store.write d.file n.data.length text,
    passed := ρ.passed ++ [⟨m₂.shell.id, 1, text⟩] }, ?_, ?_⟩
  · have hnone : [(⟨m₂.shell.id, 1, text⟩ : Transfer)].filter (fun t => !d.takes t) = [] := by
      simp [htakes]
    simp only [Machine.transfer, Machine.setFile, withStore, mirrored, set_own,
      List.filter_append, hnone, List.append_nil, own, htext]
    rfl
  · exact
      { hρ with
        file := ⟨{ n with data := n.data ++ text }, htext.symm, hwritten⟩
        traffic := by
          show m₂.host.traffic ++ _ = _
          rw [← List.append_assoc, ← hρ.traffic]
          rfl }

/-! ### Events in both machines -/

lemma Twin.trip (h : d.Twin part m₁ m₂) {test : Trigger → Bool}
    (htest : ∀ t : Trigger, t.written = none → t.recorded = none → test t = false) :
    d.Twin part (m₁.trip test) (m₂.trip test) := by
  obtain ⟨ρ, rfl, hρ⟩ := h
  have hsilent : ∀ t ∈ m₂.host.triggers, test t = false :=
    fun t ht => htest t (hρ.triggers t ht).1 (hρ.triggers t ht).2
  rw [trip_of_silent (m := m₂) hsilent, trip_of_silent (m := m₂.mirrored d part ρ) hsilent]
  exact ⟨ρ, rfl, hρ⟩

lemma Twin.record (h : d.Twin part m₁ m₂) (e : Event) :
    d.Twin part (m₁.record e) (m₂.record e) := by
  have hrecorded : m₁.shell.recorded = m₂.shell.recorded := by
    obtain ⟨ρ, rfl, -⟩ := h
    rfl
  have hevents : d.Twin part
      { m₁ with host := { m₁.host with events := m₁.host.events ++ [e] } }
      { m₂ with host := { m₂.host with events := m₂.host.events ++ [e] } } := by
    obtain ⟨ρ, rfl, hρ⟩ := h
    exact ⟨{ ρ with events := ρ.events ++ [e] }, rfl, { hρ with }⟩
  have hlog : ∀ {n₁ n₂ : Machine}, d.Twin part n₁ n₂ →
      d.Twin part (n₁.logEvent e) (n₂.logEvent e) := by
    intro n₁ n₂ hn
    have hsame : n₁.host.eventLog = n₂.host.eventLog ∧ n₁.host.stamp = n₂.host.stamp ∧
        n₁.shell.session = n₂.shell.session := by
      obtain ⟨ρ, rfl, -⟩ := hn
      exact ⟨rfl, rfl, rfl⟩
    rw [logEvent, logEvent, hsame.1, hsame.2.1, hsame.2.2]
    cases hlog : n₂.host.eventLog with
    | none => exact hn
    | some i =>
      obtain ⟨hlt, hstale⟩ : i < d.handle ∧ i ∉ d.stale := by
        obtain ⟨ρ, -, hρ⟩ := hn
        exact hρ.eventLog i hlog
      have hwritten := hn.writeFile hstale (e.jsonLine n₂.host.stamp n₂.shell.session)
      rw [shift_of_lt hlt] at hwritten
      exact hwritten.2
  have hshow : ∀ {n₁ n₂ : Machine}, d.Twin part n₁ n₂ →
      d.Twin part (n₁.showEvent e) (n₂.showEvent e) := by
    intro n₁ n₂ hn
    have hsame : n₁.host.verbose = n₂.host.verbose ∧ n₁.host.stamp = n₂.host.stamp ∧
        n₁.shell.session = n₂.shell.session := by
      obtain ⟨ρ, rfl, -⟩ := hn
      exact ⟨rfl, rfl, rfl⟩
    rw [showEvent, showEvent, hsame.1, hsame.2.1, hsame.2.2]
    split
    · exact hn.transfer (.inl (by decide)) _
    · exact hn
  rw [Machine.record, Machine.record, hrecorded]
  split
  · refine (hshow (hlog hevents)).trip fun t _ ht => ?_
    rw [ht]
    rfl
  · exact h

lemma Twin.foldl_record (h : d.Twin part m₁ m₂) (es : List Event) :
    d.Twin part (es.foldl Machine.record m₁) (es.foldl Machine.record m₂) := by
  induction es generalizing m₁ m₂ with
  | nil => exact h
  | cons e es ih => exact ih (h.record e)

/-! ### File operations -/

lemma Quiet.of_evolves {m m' : Machine} (h : d.Quiet m') (hevolves : Evolves m m') :
    d.Quiet m := by
  obtain ⟨later, hlater⟩ := hevolves.grows.1
  intro new hnew r hr
  have hnew' : m'.host.requests = (later ++ new) ++ d.asked := by
    rw [← hlater, hnew, List.append_assoc]
  exact h _ hnew' r (List.mem_append_right _ hr)

lemma key_outcome {m : Machine} {r : FileRequest} (hr : r.Usual) :
    (m.outcome r).2.key = m.host.store.key := by
  rw [outcome]
  split
  · exact FileStore.key_perform hr
  · rw [AuditedStore.perform_eq]
    dsimp only
    split
    · rfl
    · exact FileStore.key_perform hr

/-- What is asked for now would not notice the file. -/
lemma Twin.ignores (h : d.Twin part m₁ m₂) {r : FileRequest} (hquiet : d.Quiet (m₂.asked r)) :
    r.Ignores d.files d.file d.typed := by
  obtain ⟨ρ, -, hρ⟩ := h
  obtain ⟨new, hnew⟩ := hρ.requests
  refine hquiet (r :: new) ?_ r List.mem_cons_self
  show r :: m₂.host.requests = _
  rw [List.cons_append, hnew]
  rfl

lemma Twin.asked (h : d.Twin part m₁ m₂) {r : FileRequest} (hr : r.Usual)
    (hquiet : d.Quiet (m₂.asked r)) :
    (m₁.outcome r).1 = (m₂.outcome r).1 ∧ m₁.trail r = m₂.trail r ∧
      d.Twin part (m₁.asked r) (m₂.asked r) ∧
      ∀ f, (m₂.outcome r).1 = .ok (.handle f) → m₂.host.store.key f.path ≠ d.file := by
  have hignores := (h.ignores hquiet).1
  obtain ⟨ρ, rfl, hρ⟩ := h
  obtain ⟨n, hdata, hstore⟩ := hρ.file
  have hkey : m₂.host.store.key = d.files.key := hρ.key
  have hmiss : ∀ q ∈ r.inquiries, m₂.host.store.Misses d.file q.path := by
    intro q hq
    rw [FileStore.Misses, hkey]
    exact hignores q hq
  have houtcome : ((m₂.mirrored d part ρ).outcome r).1 = (m₂.outcome r).1 ∧
      (m₂.outcome r).2.Overlaid d.file n ((m₂.mirrored d part ρ).outcome r).2 ∧
      ∀ f, (m₂.outcome r).1 = .ok (.handle f) → m₂.host.store.key f.path ≠ d.file := by
    rw [outcome, outcome, show (m₂.mirrored d part ρ).shell.guard = m₂.shell.guard from rfl]
    cases m₂.shell.guard with
    | none => exact hstore.perform hr hmiss
    | session readOnly => exact hstore.audited hr hmiss _
  refine ⟨houtcome.1, ?_, ?_, houtcome.2.2⟩
  · rw [trail, trail, show (m₂.mirrored d part ρ).shell.guard = m₂.shell.guard from rfl]
    split
    · rfl
    · dsimp only
      rw [AuditedStore.asked_perform _ m₂.host.store]
  · refine ⟨{ ρ with store := ((m₂.mirrored d part ρ).outcome r).2, requests := r :: ρ.requests },
      rfl, ?_⟩
    exact
      { hρ with
        file := ⟨n, hdata, houtcome.2.1⟩
        key := (key_outcome hr).trans hρ.key
        stale := fun h f hf hpath =>
          hρ.stale h f hf ((congrFun (key_outcome hr) f.path).symm.trans hpath)
        requests := hρ.requests.trans (List.suffix_cons _ _) }

lemma Twin.request (h : d.Twin part m₁ m₂) {r : FileRequest} (hr : r.Usual)
    (hquiet : d.Quiet (m₂.request r).2) :
    (m₁.request r).1 = (m₂.request r).1 ∧ d.Twin part (m₁.request r).2 (m₂.request r).2 ∧
      ∀ f, (m₂.request r).1 = .ok (.handle f) → d.files.key f.path ≠ d.file := by
  have hkey : m₂.host.store.key = d.files.key := by
    obtain ⟨ρ, -, hρ⟩ := h
    exact hρ.key
  rw [request_eq] at hquiet
  obtain ⟨hanswer, htrail, htwin, hother⟩ :=
    h.asked hr (hquiet.of_evolves (m₂.evolves_trail r))
  rw [request_eq, request_eq, htrail]
  exact ⟨hanswer, htwin.foldl_record _, hkey ▸ hother⟩

lemma Twin.openFile (h : d.Twin part m₁ m₂) {r : FileRequest} (hr : r.Usual)
    (hquiet : d.Quiet (m₂.openFile r).2) :
    (m₁.openFile r).1 = (m₂.openFile r).1.map d.shift ∧
      d.Twin part (m₁.openFile r).2 (m₂.openFile r).2 ∧
      ∀ i, (m₂.openFile r).1 = .ok i → i ∉ d.stale := by
  have hrequest : d.Quiet (m₂.request r).2 := by
    rw [Machine.openFile] at hquiet
    split at hquiet
    · rename_i heq
      rwa [heq]
    · rename_i f n heq
      rw [heq]
      exact hquiet
    · rename_i heq
      rwa [heq]
  obtain ⟨hanswer, htwin, hother⟩ := h.request hr hrequest
  rw [Machine.openFile, Machine.openFile]
  rcases h₁ : m₁.request r with ⟨answer, n₁⟩
  rcases h₂ : m₂.request r with ⟨answer', n₂⟩
  rw [h₁, h₂] at hanswer htwin
  rw [h₂] at hother
  obtain rfl : answer = answer' := hanswer
  dsimp only at htwin hother
  cases answer with
  | error f => exact ⟨rfl, htwin, fun i hi => by cases hi⟩
  | ok answer =>
    cases answer with
    | handle f =>
      obtain ⟨hnumber, hkept, hfresh⟩ := htwin.keep (hother f rfl)
      refine ⟨congrArg Except.ok hnumber, hkept, fun i hi => ?_⟩
      obtain rfl := Except.ok.inj hi
      exact hfresh
    | done => exact ⟨rfl, htwin, fun i hi => by cases hi⟩
    | info name node => exact ⟨rfl, htwin, fun i hi => by cases hi⟩
    | linkInfo name node itself => exact ⟨rfl, htwin, fun i hi => by cases hi⟩
    | link name => exact ⟨rfl, htwin, fun i hi => by cases hi⟩

end Diversion

end ConsoleShell
