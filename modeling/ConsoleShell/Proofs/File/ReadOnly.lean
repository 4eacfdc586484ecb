/-
Files that may only be read.

The rule of a read-only session refuses every question about an operation that changes files.
What it lets through only looks at them.  Whether files stay as they are while they are looked
at, and while what comes of it is used, is up to the files; `Spared` says what is asked of them
for that.  A program that goes through a read-only session then leaves them as they were,
whatever it asks for, reads, writes and closes.

Stores do what is asked of them.  Of the ways to open a file that are let through, one stands
out: opening with nothing but the flag for files that must not exist yet.  In memory that would
give a handle that can be written, but it fails whether or not the file is there.
-/
import ConsoleShell.File.Base
import ConsoleShell.Proofs.File.Store

namespace ConsoleShell

/-! ### What a read-only session lets through -/

namespace FileRequest

/-- The operation raises no question about a change of files. -/
def Looks (r : FileRequest) : Prop := ∀ q ∈ r.inquiries, q.operation.isWrite = false

/-- A file is opened for reading, or only if it does not exist. -/
lemma looks_openFile_iff (p : Bytes) (flags : OpenFlags) :
    (openFile p flags).Looks ↔
      flags = {} ∨ flags = { exclusive := true } := by
  obtain ⟨w, rw, a, c, t, x⟩ := flags
  cases w <;> cases rw <;> cases a <;> cases c <;> cases t <;> cases x <;>
    simp [Looks, inquiries, opensForWriting, FileOperation.isWrite]

end FileRequest

/-! ### Files that are only looked at -/

/-- What is asked of files so that a property of theirs lasts while they are looked at in one of
the ways, and while harmless handles are used.  Looking keeps the property and gives out harmless
handles only.  To read, write or close through a harmless handle keeps the property, and the
handle is harmless afterwards. -/
structure FileBase.Spared {σ : Type} [FileBase σ] (ways : FileRequest → Prop) (P : σ → Prop)
    (harmless : OpenFile → Prop) : Prop where
  look : ∀ {r : FileRequest} {s : σ}, ways r → r.Looks → P s →
    P ((FileBase.system s).serve r () s).2
  handle : ∀ {r : FileRequest} {s : σ} {f : OpenFile}, ways r → r.Looks → P s →
    ((FileBase.system s).serve r () s).1 = .ok (.handle f) → harmless f
  list : ∀ path {s : σ}, P s → P (FileBase.list path s).2
  read : ∀ count {f : OpenFile} {s : σ}, harmless f → P s →
    harmless (FileBase.read f count s).2.1 ∧ P (FileBase.read f count s).2.2
  write : ∀ text {f : OpenFile} {s : σ}, harmless f → P s →
    harmless (FileBase.write f text s).2.1 ∧ P (FileBase.write f text s).2.2
  close : ∀ {f : OpenFile} {s : σ}, harmless f → P s →
    harmless (FileBase.close f s).2.1 ∧ P (FileBase.close f s).2.2

/-- The file with a key cannot be written through the handle. -/
def OpenFile.SparesKey (k : Bytes) (f : OpenFile) : Prop := f.path = k → f.readOnly = true

namespace FileStore

/-- Opening for reading, or only if the file does not exist, leaves the store as it is. -/
lemma eq_of_openFile_looks {s t : FileStore} {p : Bytes} {flags : OpenFlags} {position : Nat}
    (hflags : (FileRequest.openFile p flags).Looks) (h : s.openFile p flags = .ok (t, position)) :
    t = s := by
  rcases (FileRequest.looks_openFile_iff p flags).1 hflags with rfl | rfl
  all_goals
    unfold openFile at h
    dsimp only at h
    split at h
    · split_ifs at h <;> simp_all
    · simp at h

/-- In memory a file is never opened by the flag for absent files alone. -/
lemma openFile_exclusive_ne_ok {s : FileStore} (hs : s.medium = .memory) (p : Bytes)
    (result : FileStore × Nat) : s.openFile p { exclusive := true } ≠ .ok result := by
  intro h
  unfold openFile at h
  dsimp only at h
  split at h
  · simp [hs] at h
  · simp at h

lemma perform_of_looks {s : FileStore} {r : FileRequest} (h : r.Looks) : (s.perform r).2 = s := by
  cases r with
  | stat p => rfl
  | lstat p => rfl
  | readlink p =>
    simp only [perform]
    split
    · rfl
    · split <;> rfl
  | «open» p =>
    simp only [perform]
    split <;> rfl
  | openFile p flags =>
    simp only [perform]
    split
    · rename_i t position hopen
      exact eq_of_openFile_looks h hopen
    · rfl
  | _ => simp [FileRequest.Looks, FileRequest.inquiries, FileOperation.isWrite] at h

/-- A handle that comes of looking cannot be written. -/
lemma readOnly_of_looks {s : FileStore} {r : FileRequest} {f : OpenFile} (h : r.Looks)
    (hf : (s.perform r).1 = .ok (.handle f)) : f.readOnly = true := by
  cases r with
  | stat p | lstat p =>
    simp only [perform] at hf
    cases hstat : s.stat p with
    | error e => simp [hstat, Except.map] at hf
    | ok n => simp [hstat, Except.map] at hf
  | readlink p =>
    simp only [perform] at hf
    split at hf
    · simp at hf
    · split at hf <;> simp at hf
  | «open» p =>
    simp only [perform] at hf
    split at hf
    · cases hf
      rfl
    · simp at hf
  | openFile p flags =>
    simp only [perform] at hf
    split at hf
    · rename_i t position hopen
      cases hf
      show flags.isReadOnly s.medium = true
      rcases (FileRequest.looks_openFile_iff p flags).1 h with rfl | rfl
      · cases s.medium <;> rfl
      · cases hmedium : s.medium with
        | memory => exact absurd hopen (openFile_exclusive_ne_ok hmedium p _)
        | system => rfl
    · simp at hf
  | _ => simp [FileRequest.Looks, FileRequest.inquiries, FileOperation.isWrite] at h

/-- A store spares a property if handles that can only be read are harmless, if it does not matter
for a handle how far it has been read or whether it is closed, and if writes through harmless
handles keep the property. -/
lemma spared {P : FileStore → Prop} {harmless : OpenFile → Prop}
    (hread : ∀ {f : OpenFile}, f.readOnly = true → harmless f)
    (huse : ∀ {f : OpenFile} (position : Nat) (closed : Bool), harmless f →
      harmless { f with position, closed })
    (hwrite : ∀ {f : OpenFile} {s : FileStore} (text : Bytes), harmless f → P s →
      P (f.write s text).2.2) (ways : FileRequest → Prop) :
    FileBase.Spared ways P harmless where
  look := by
    intro r s _ hlooks hs
    rw [serve_system, perform_of_looks hlooks]
    exact hs
  handle := by
    intro r s f _ hlooks _ hf
    rw [serve_system] at hf
    exact hread (readOnly_of_looks hlooks hf)
  list _ _ hs := hs
  read := by
    intro count f s hf hs
    obtain ⟨position, heq⟩ := f.read_eq s count
    rw [FileBase.read_store, heq]
    exact ⟨huse position f.closed hf, hs⟩
  write := by
    intro text f s hf hs
    obtain ⟨position, heq⟩ := f.write_handle s text
    rw [FileBase.write_store]
    exact ⟨heq ▸ huse position f.closed hf, hwrite text hf hs⟩
  close hf hs := ⟨huse _ true hf, hs⟩

/-- A store stays as it is while nothing can be written through its handles. -/
lemma spared_store (base : FileStore) (ways : FileRequest → Prop) :
    FileBase.Spared ways (· = base) fun f => f.readOnly = true := by
  refine spared id (fun _ _ hf => hf) (fun text hf hs => ?_) ways
  rw [(OpenFile.write_of_readOnly hf _ text).2, hs]

/-- A path keeps what it has while its file cannot be written through a handle. -/
lemma spared_path (base : FileStore) (p : Bytes) (ways : FileRequest → Prop) :
    FileBase.Spared ways
      (fun s : FileStore => s.key p = base.key p ∧ s.find? p = base.find? p)
      (OpenFile.SparesKey (base.key p)) := by
  refine spared ?_ ?_ ?_ ways
  · exact fun hf _ => hf
  · exact fun _ _ hf => hf
  · intro f s text hf hs
    obtain ⟨hkey, hfind⟩ := hs
    refine ⟨by rw [OpenFile.key_write, hkey], ?_⟩
    by_cases hpath : f.path = base.key p
    · rw [(OpenFile.write_of_readOnly (hf hpath) s text).2, hfind]
    · rw [OpenFile.find?_write_of_ne (hkey ▸ Ne.symm hpath), hfind]

end FileStore

namespace Auditor

/-- A read-only session refuses as soon as it is asked about a change. -/
lemma ask_readOnly_eq_none_iff (asked qs : List Inquiry) :
    ((sessionAuditor true).ask asked qs).1 = none ↔ ∀ q ∈ qs, q.operation.isWrite = false := by
  induction qs generalizing asked with
  | nil => simp [ask]
  | cons q qs ih =>
    cases hq : q.operation.isWrite with
    | true => simp [ask, sessionAuditor, hq]
    | false => simp [ask, sessionAuditor, hq, ih]

end Auditor

namespace AuditedStore

variable {σ : Type} [FileBase σ]

/-- What a read-only session answers is a refusal, or what comes of looking at the files. -/
lemma perform_readOnly (s : AuditedStore σ) (r : FileRequest) :
    (∃ f, (s.perform (sessionAuditor true) r).1 = .error f ∧
        (s.perform (sessionAuditor true) r).2.store = s.store) ∨
      r.Looks ∧
        (s.perform (sessionAuditor true) r).1 =
          ((FileBase.system s.store).serve r () s.store).1 ∧
        (s.perform (sessionAuditor true) r).2.store =
          ((FileBase.system s.store).serve r () s.store).2 := by
  have hiff := Auditor.ask_readOnly_eq_none_iff s.asked r.inquiries
  rw [perform, UnderAudit.perform]
  split
  · exact .inl ⟨_, rfl, rfl⟩
  · rename_i asked hask
    exact .inr ⟨hiff.1 (by rw [hask]), rfl, rfl⟩

variable {ways : FileRequest → Prop} {P : σ → Prop} {harmless : OpenFile → Prop}
  (h : FileBase.Spared ways P harmless) {s : AuditedStore σ} {r : FileRequest} (hr : ways r)
  (hs : P s.store)
include h hr hs

/-- Whatever is asked for in a read-only session, the property lasts. -/
lemma spared_perform : P (s.perform (sessionAuditor true) r).2.store := by
  rcases s.perform_readOnly r with ⟨_, -, hstore⟩ | ⟨hlooks, -, hstore⟩
  · rwa [hstore]
  · rw [hstore]
    exact h.look hr hlooks hs

/-- A read-only session gives out harmless handles only. -/
lemma harmless_of_perform {f : OpenFile}
    (hf : (s.perform (sessionAuditor true) r).1 = .ok (.handle f)) : harmless f := by
  rcases s.perform_readOnly r with ⟨_, hrefused, -⟩ | ⟨hlooks, hanswer, -⟩
  · rw [hf] at hrefused
    cases hrefused
  · exact h.handle hr hlooks hs (hanswer ▸ hf)

end AuditedStore

/-! ### Programs that use guarded files -/

/-- What a program does with guarded files: it asks for an operation, and it uses the handles
that it has got, by their numbers. -/
inductive FileAccess where
  | perform (request : FileRequest)
  | read (handle count : Nat)
  | write (handle : Nat) (text : Bytes)
  | close (handle : Nat)
  deriving DecidableEq, Repr

/-- Guarded files in use: the files with their auditor's questions, and the handles that were
given out, in order. -/
structure FileClient (σ : Type := FileStore) where
  files : AuditedStore σ
  handles : List OpenFile := []
  deriving DecidableEq, Repr

namespace FileClient

variable {σ : Type}

/-- The client after a handle has been used. -/
def used (c : FileClient σ) (h : Nat) (f : OpenFile) (store : σ) : FileClient σ :=
  ⟨{ c.files with store }, c.handles.set h f⟩

variable [FileBase σ]

/-- The files after an access; an access through a handle that was not given out does
nothing. -/
def access (a : Auditor) (c : FileClient σ) : FileAccess → FileClient σ
  | .perform r =>
    match c.files.perform a r with
    | (.ok (.handle f), files) => ⟨files, c.handles ++ [f]⟩
    | (_, files) => { c with files }
  | .read h count =>
    match c.handles[h]? with
    | none => c
    | some f =>
      let (_, f, store) := FileBase.read f count c.files.store
      c.used h f store
  | .write h text =>
    match c.handles[h]? with
    | none => c
    | some f =>
      let (_, f, store) := FileBase.write f text c.files.store
      c.used h f store
  | .close h =>
    match c.handles[h]? with
    | none => c
    | some f =>
      let (_, f, store) := FileBase.close f c.files.store
      c.used h f store

/-- The files have the property, and all handles are harmless. -/
structure Harmless (P : σ → Prop) (harmless : OpenFile → Prop) (c : FileClient σ) : Prop where
  store : P c.files.store
  handles : ∀ f ∈ c.handles, harmless f

namespace Harmless

variable {P : σ → Prop} {harmless : OpenFile → Prop} {c : FileClient σ}

omit [FileBase σ] in
lemma used (hc : Harmless P harmless c) {f : OpenFile} {store : σ}
    (h : harmless f ∧ P store) (i : Nat) : Harmless P harmless (c.used i f store) where
  store := h.2
  handles := by
    intro g hg
    rcases List.mem_or_eq_of_mem_set hg with hg | rfl
    · exact hc.handles g hg
    · exact h.1

/-- One access in a read-only session keeps the property and gives out no harmful handle. -/
lemma access (hc : Harmless P harmless c)
    (h : FileBase.Spared (fun _ => True) P harmless) (x : FileAccess) :
    Harmless P harmless (c.access (sessionAuditor true) x) := by
  have hharmless : ∀ {i : Nat} {f : OpenFile}, c.handles[i]? = some f → harmless f :=
    fun hf => hc.handles _ (List.mem_of_getElem? hf)
  cases x with
  | perform r =>
    have hstore := AuditedStore.spared_perform h (r := r) trivial hc.store
    unfold FileClient.access
    dsimp only
    split
    · rename_i f files hperform
      rw [hperform] at hstore
      refine ⟨hstore, fun g hg => ?_⟩
      rcases List.mem_append.1 hg with hg | hg
      · exact hc.handles g hg
      · obtain rfl := List.mem_singleton.1 hg
        exact AuditedStore.harmless_of_perform h trivial hc.store (by rw [hperform])
    · rename_i files _ hperform
      rw [hperform] at hstore
      exact ⟨hstore, hc.handles⟩
  | read i count =>
    unfold FileClient.access
    dsimp only
    split
    · exact hc
    · rename_i f hf
      exact hc.used (h.read count (hharmless hf) hc.store) i
  | write i text =>
    unfold FileClient.access
    dsimp only
    split
    · exact hc
    · rename_i f hf
      exact hc.used (h.write text (hharmless hf) hc.store) i
  | close i =>
    unfold FileClient.access
    dsimp only
    split
    · exact hc
    · rename_i f hf
      exact hc.used (h.close (hharmless hf) hc.store) i

end Harmless

/-- Whatever a program asks for, reads, writes and closes in a read-only session, properties last
that the files spare. -/
theorem spared_of_readOnly_session {P : σ → Prop} {harmless : OpenFile → Prop}
    (h : FileBase.Spared (fun _ => True) P harmless) {files : σ} (hfiles : P files)
    (accesses : List FileAccess) :
    P (accesses.foldl (access (sessionAuditor true)) ⟨⟨files, []⟩, []⟩).files.store := by
  suffices hall : ∀ c : FileClient σ, Harmless P harmless c →
      Harmless P harmless (accesses.foldl (access (sessionAuditor true)) c) from
    (hall _ ⟨hfiles, by simp⟩).store
  induction accesses with
  | nil => exact fun c hc => hc
  | cons x accesses ih => exact fun c hc => ih _ (hc.access h x)

/-- **A read-only session is read-only for every program.**  Whatever a program asks of a store,
in memory or not, through a read-only session, with whatever flags it opens files, and whatever
it reads, writes and closes through the handles that it gets, the files are as they were. -/
theorem store_of_readOnly_session (base : FileStore) (accesses : List FileAccess) :
    (accesses.foldl (access (sessionAuditor true)) ⟨⟨base, []⟩, []⟩).files.store = base :=
  spared_of_readOnly_session (base.spared_store _) rfl accesses

/-- A program that opens an existing file in every way that is let through, writes to the handles
that it gets, and tries to create, move and remove files. -/
theorem store_of_readOnly_session_writes :
    let base : FileStore := { entries := [("/a", .file "x"), ("/", .directory)] }
    let accesses : List FileAccess :=
      [.perform (.open "/a"), .write 0 "y", .perform (.openFile "/a" {}), .write 1 "y",
        .perform (.openFile "/a" { exclusive := true }), .write 2 "y",
        .perform (.openFile "/b" { writeOnly := true, create := true }), .write 2 "y",
        .perform (.create "/a"), .perform (.rename "/a" "/b"), .perform (.removeAll "/")]
    base.medium = .memory ∧
      (accesses.foldl (access (sessionAuditor true)) ⟨⟨base, []⟩, []⟩).handles.length = 2 ∧
      (accesses.foldl (access (sessionAuditor true)) ⟨⟨base, []⟩, []⟩).files.store = base := by
  intro base accesses
  exact ⟨rfl, by decide +kernel, store_of_readOnly_session base accesses⟩

end FileClient

end ConsoleShell
