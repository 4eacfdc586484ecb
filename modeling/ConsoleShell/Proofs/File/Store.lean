/-
Entries of a file store.

Setting the entry of one key leaves the entries of all other keys alone, and neither setting
nor writing changes how paths are turned into keys.
-/
import ConsoleShell.File.Handle
import ConsoleShell.Proofs.Lookup

namespace ConsoleShell

namespace FileStore

/-! ### Setting an entry -/

@[simp] lemma key_set (s : FileStore) (k : Bytes) (n : Node) : (s.set k n).key = s.key := rfl

lemma find?_set_of_ne {s : FileStore} {k p : Bytes} (h : s.key p ≠ k) (n : Node) :
    (s.set k n).find? p = s.find? p := by
  have hhead : ((k, n).1 == s.key p) = false := beq_eq_false_iff_ne.2 (Ne.symm h)
  show (List.find? (fun e => e.1 == s.key p) ((k, n) :: s.entries.filter fun e => e.1 != k)).map
    (·.2) = _
  rw [List.find?_cons_of_neg (by simpa using hhead), find?_filter_key_of_ne Prod.fst h]
  rfl

lemma find?_set_self {s : FileStore} {k p : Bytes} (h : s.key p = k) (n : Node) :
    (s.set k n).find? p = some n := by
  show (List.find? (fun e => e.1 == s.key p) ((k, n) :: _)).map (·.2) = _
  rw [List.find?_cons_of_pos (by simp [h])]
  rfl

/-! ### Writing -/

@[simp] lemma key_write (s : FileStore) (k : Bytes) (position : Nat) (text p : Bytes) :
    (s.write k position text).key p = s.key p := by
  rw [write]
  split <;> rfl

lemma find?_write_of_ne {s : FileStore} {k p : Bytes} (h : s.key p ≠ k) (position : Nat)
    (text : Bytes) : (s.write k position text).find? p = s.find? p := by
  rw [write]
  split
  · exact find?_set_of_ne h _
  · rfl

/-! ### Opening -/

lemma key_ensureParent (s : FileStore) (fuel : Nat) (k : Bytes) :
    (s.ensureParent fuel k).key = s.key := by
  induction fuel generalizing k with
  | zero => rfl
  | succ fuel ih =>
    rw [ensureParent]
    split_ifs
    · rfl
    · split
      · split_ifs <;> rfl
      · exact ih _

@[simp] lemma key_add (s : FileStore) (k : Bytes) (n : Node) : (s.add k n).key = s.key := by
  rw [add, key_set, key_ensureParent]

/-- Opening a file does not change how paths are turned into keys. -/
lemma key_openFile {s t : FileStore} {p : Bytes} {flags : OpenFlags} {position : Nat}
    (h : s.openFile p flags = .ok (t, position)) : t.key = s.key := by
  rw [openFile] at h
  dsimp only at h
  split at h
  · split_ifs at h <;> obtain ⟨rfl, -⟩ := Prod.mk.inj (Except.ok.inj h) <;> rfl
  · split at h
    · split at h
      · cases h
      · split_ifs at h <;> obtain ⟨rfl, -⟩ := Prod.mk.inj (Except.ok.inj h) <;> simp
    · cases h

end FileStore

namespace OpenFile

/-- A write is refused and changes nothing, or it changes the position and the file of its
handle. -/
lemma write_eq (f : OpenFile) (s : FileStore) (text : Bytes) :
    (∃ e, f.write s text = (.error e, f, s)) ∨
      f.readOnly = false ∧ ∃ position, f.write s text =
        (.ok (), { f with position := position + text.length },
          s.write f.path position text) := by
  by_cases hclosed : f.closed = true
  · exact .inl ⟨_, by rw [write, if_pos hclosed]⟩
  by_cases hreadOnly : f.readOnly = true
  · exact .inl ⟨_, by rw [write, if_neg hclosed, if_pos hreadOnly]⟩
  · exact .inr ⟨by simpa using hreadOnly, _, by rw [write, if_neg hclosed, if_neg hreadOnly]⟩

@[simp] lemma key_write (f : OpenFile) (s : FileStore) (text p : Bytes) :
    (f.write s text).2.2.key p = s.key p := by
  obtain ⟨e, heq⟩ | ⟨-, position, heq⟩ := f.write_eq s text
  · rw [heq]
  · rw [heq, FileStore.key_write]

/-- A write through a handle changes no other file. -/
lemma find?_write_of_ne {f : OpenFile} {s : FileStore} {p : Bytes} (h : s.key p ≠ f.path)
    (text : Bytes) : (f.write s text).2.2.find? p = s.find? p := by
  obtain ⟨e, heq⟩ | ⟨-, position, heq⟩ := f.write_eq s text
  · rw [heq]
  · rw [heq, FileStore.find?_write_of_ne h]

/-- A write leaves the path of its handle, and whether it can be written. -/
lemma write_handle (f : OpenFile) (s : FileStore) (text : Bytes) :
    ∃ position, (f.write s text).2.1 = { f with position } := by
  obtain ⟨e, heq⟩ | ⟨-, position, heq⟩ := f.write_eq s text
  · exact ⟨f.position, by rw [heq]⟩
  · exact ⟨_, by rw [heq]⟩

/-- Nothing is written through a handle that cannot be written. -/
lemma write_of_readOnly {f : OpenFile} (hf : f.readOnly = true) (s : FileStore) (text : Bytes) :
    (f.write s text).2.1 = f ∧ (f.write s text).2.2 = s := by
  obtain ⟨e, heq⟩ | ⟨hwritable, -⟩ := f.write_eq s text
  · rw [heq]
    exact ⟨rfl, rfl⟩
  · rw [hf] at hwritable
    cases hwritable

/-- Reading moves the position and nothing else. -/
lemma read_eq (f : OpenFile) (s : FileStore) (count : Nat) :
    ∃ position, (f.read s count).2 = { f with position } := by
  rw [read]
  dsimp only
  split_ifs
  · exact ⟨_, rfl⟩
  · split <;> exact ⟨_, rfl⟩
  · exact ⟨_, rfl⟩
  · exact ⟨_, rfl⟩

end OpenFile

end ConsoleShell
