/-
Stores that differ in one file.

A store with another node at one key answers every operation on other paths alike, as long as
the operation names no path below the key: whether something can be found or created there
depends on what the key holds.  The difference itself survives such operations.
-/
import ConsoleShell.File.Request
import ConsoleShell.Proofs.File.Path
import ConsoleShell.Proofs.File.Store

namespace ConsoleShell

namespace FileStore

/-- The path is neither the one of the key nor below it. -/
def Misses (s : FileStore) (k p : Bytes) : Prop := k ≠ s.key p ∧ k ∉ parents (s.key p)

/-- `s` is `t` with the node `n` at the key `k`. -/
structure Overlaid (t : FileStore) (k : Bytes) (n : Node) (s : FileStore) : Prop where
  medium : s.medium = t.medium
  directory : s.directory = t.directory
  anchored : t.Anchored
  key_self : t.key k = k
  held : s.find? k = some n
  entries : s.entries.filter (fun e => e.1 != k) = t.entries.filter fun e => e.1 != k

namespace Overlaid

variable {s t : FileStore} {k : Bytes} {n : Node}

lemma key (h : Overlaid t k n s) : s.key = t.key := by
  funext p
  rw [FileStore.key, FileStore.key, h.medium, h.directory]

/-- What is at other keys is the same. -/
lemma find? (h : Overlaid t k n s) {p : Bytes} (hp : t.key p ≠ k) : s.find? p = t.find? p := by
  have hskip := find?_filter_key_of_ne (α := Bytes × Node) Prod.fst hp
  rw [FileStore.find?, FileStore.find?, h.key, ← hskip s.entries, h.entries, hskip]

lemma contents (h : Overlaid t k n s) {p : Bytes} (hp : t.key p ≠ k) :
    s.contents p = t.contents p := by
  rw [FileStore.contents, FileStore.contents, h.find? hp]

lemma contents_self (h : Overlaid t k n s) : s.contents k = n.data := by
  rw [FileStore.contents, h.held]
  rfl

/-! ### Changes -/

lemma filter_set (s : FileStore) (k x : Bytes) (m : Node) :
    (s.set x m).entries.filter (fun e => e.1 != k) =
      (if x = k then [] else [(x, m)]) ++
        ((s.entries.filter fun e => e.1 != k).filter fun e => e.1 != x) := by
  rw [FileStore.set, List.filter_cons, List.filter_comm]
  split_ifs with hx hk hk
  · simp [hk] at hx
  · rfl
  · rfl
  · simp [hk] at hx

lemma set (h : Overlaid t k n s) {x : Bytes} (hx : x ≠ k) (m : Node) :
    Overlaid (t.set x m) k n (s.set x m) where
  medium := h.medium
  directory := h.directory
  anchored := h.anchored
  key_self := h.key_self
  held := by
    have hk : s.key k ≠ x := by rw [h.key, h.key_self]; exact Ne.symm hx
    rw [find?_set_of_ne hk, h.held]
  entries := by rw [filter_set, filter_set, h.entries]

/-- The node at the key itself can be replaced. -/
lemma set_self (h : Overlaid t k n s) (m : Node) : Overlaid t k m (s.set k m) where
  medium := h.medium
  directory := h.directory
  anchored := h.anchored
  key_self := h.key_self
  held := find?_set_self (by rw [h.key, h.key_self]) m
  entries := by
    rw [filter_set, if_pos rfl, List.nil_append, List.filter_filter]
    simp only [Bool.and_self]
    exact h.entries

/-- Setting the node of a key makes the only difference. -/
lemma of_set (hs : t.Anchored) (hk : t.key k = k) (m : Node) : Overlaid t k m (t.set k m) where
  medium := rfl
  directory := rfl
  anchored := hs
  key_self := hk
  held := find?_set_self hk m
  entries := by
    rw [filter_set, if_pos rfl, List.nil_append, List.filter_filter]
    simp only [Bool.and_self]

lemma write (h : Overlaid t k n s) {x : Bytes} (hx : t.key x ≠ k) (position : Nat)
    (text : Bytes) : Overlaid (t.write x position text) k n (s.write x position text) := by
  have hne : x ≠ k := fun heq => hx (by rw [heq, h.key_self])
  rw [FileStore.write, FileStore.write, h.find? hx]
  split
  · exact h.set hne _
  · exact h

/-- Writing to the file at the key. -/
lemma write_self (h : Overlaid t k n s) (position : Nat) (text : Bytes) :
    Overlaid t k { n with data := overwrite n.data position text } (s.write k position text) := by
  rw [FileStore.write, h.held]
  exact h.set_self _

end Overlaid

lemma overwrite_end (data text : Bytes) : overwrite data data.length text = data ++ text := by
  simp [overwrite, Bytes.replicate]

/-! ### Paths that miss the key -/

namespace Misses

variable {s : FileStore} {k p : Bytes}

lemma find_key (hs : s.Anchored) (h : s.Misses k p) : s.key (s.key p) ≠ k := by
  rw [key_key hs]
  exact Ne.symm h.1

/-- The directories above the path are looked up under their own keys, which are others. -/
lemma parent (hs : s.Anchored) (h : s.Misses k p) {d : Bytes} (hd : d ∈ parents (s.key p)) :
    s.key d ≠ k ∧ d ≠ k := by
  have hne : d ≠ k := fun heq => h.2 (heq ▸ hd)
  exact ⟨by rwa [key_of_mem_parents hs hd], hne⟩

end Misses

/-! ### Operations -/

namespace Overlaid

variable {s t : FileStore} {k : Bytes} {n : Node} {p : Bytes}

lemma shown (h : Overlaid t k n s) : s.shown = t.shown := by
  funext p
  rw [FileStore.shown, FileStore.shown, h.medium]

lemma fault (h : Overlaid t k n s) : s.fault = t.fault := by
  funext operation p reason
  rw [FileStore.fault, FileStore.fault, h.shown]

/-- The directories above a path that misses the key are alike. -/
lemma any_parents (h : Overlaid t k n s) (hp : t.Misses k p) (test : Node → Bool) :
    ((parents (t.key p)).any fun d => (s.find? d).any test) =
      (parents (t.key p)).any fun d => (t.find? d).any test := by
  rw [Bool.eq_iff_iff, List.any_eq_true, List.any_eq_true]
  refine exists_congr fun d => and_congr_right fun hd => ?_
  rw [h.find? (hp.parent h.anchored hd).1]

lemma absence (h : Overlaid t k n s) (hp : t.Misses k p) : s.absence p = t.absence p := by
  simp only [FileStore.absence, h.medium, h.key, h.any_parents hp]

lemma entry (h : Overlaid t k n s) (hp : t.Misses k p) : s.entry p = t.entry p := by
  simp only [FileStore.entry, h.find? (Ne.symm hp.1), h.absence hp, h.fault]

lemma stat (h : Overlaid t k n s) (hp : t.Misses k p) : s.stat p = t.stat p := by
  simp only [FileStore.stat, h.medium, h.find? (Ne.symm hp.1), h.absence hp, h.fault]

/-- The entries of a directory that is not the one of the key are the same. -/
lemma children (h : Overlaid t k n s) (hp : normalize (Path.directory k) ≠ t.key p) :
    s.children p = t.children p := by
  have hskip : ∀ es : List (Bytes × Node),
      (es.filter fun e => e.1 != t.key p && normalize (Path.directory e.1) == t.key p) =
        (es.filter fun e => e.1 != k).filter fun e =>
          e.1 != t.key p && normalize (Path.directory e.1) == t.key p := by
    intro es
    rw [List.filter_filter]
    refine List.filter_congr fun e _ => ?_
    by_cases he : e.1 = k
    · have hdir : (normalize (Path.directory e.1) == t.key p) = false :=
        beq_eq_false_iff_ne.2 (he ▸ hp)
      rw [hdir, Bool.and_false, Bool.false_and]
    · rw [bne_iff_ne.2 he, Bool.and_true]
  rw [FileStore.children, FileStore.children]
  simp only [h.key]
  rw [hskip s.entries, h.entries, ← hskip]

/-- Making sure of the directories above a key leaves the difference. -/
lemma ensureParent (h : Overlaid t k n s) {fuel : Nat} {x : Bytes}
    (hx : ∀ d ∈ parentsUpTo fuel x, t.key d ≠ k ∧ d ≠ k) :
    Overlaid (t.ensureParent fuel x) k n (s.ensureParent fuel x) := by
  induction fuel generalizing x with
  | zero => exact h
  | succ fuel ih =>
    simp only [parentsUpTo] at hx
    simp only [FileStore.ensureParent]
    split_ifs at hx ⊢ with hroot
    · exact h
    · obtain ⟨hd, hrest⟩ := List.forall_mem_cons.1 hx
      rw [h.find? hd.1]
      split
      · split_ifs
        · exact h
        · exact h.set hd.2 _
      · exact (ih hrest).set hd.2 _

lemma add (h : Overlaid t k n s) (hp : t.Misses k p) (m : Node) :
    Overlaid (t.add (t.key p) m) k n (s.add (t.key p) m) :=
  (h.ensureParent fun _ hd => hp.parent h.anchored hd).set (Ne.symm hp.1) m

lemma creationFault? (h : Overlaid t k n s) (hp : t.Misses k p) :
    s.creationFault? (t.key p) = t.creationFault? (t.key p) := by
  cases hm : t.medium with
  | memory => simp only [FileStore.creationFault?, h.medium, hm]
  | system =>
    -- the directory of the path is above it or, at the root, the path itself
    have habsolute : Path.isAbsolute (t.key p) = true := by
      rw [FileStore.key, hm]
      exact Path.isAbsolute_resolve (h.anchored hm) p
    have hdirectory := Path.isAbsolute_directory habsolute
    have hnormal : normalize (Path.directory (t.key p)) = Path.directory (t.key p) := by
      rw [normalize_of_absolute hdirectory, Path.directory, Path.clean_clean]
    have hne : t.key (Path.directory (t.key p)) ≠ k := by
      rw [key_of_absolute hdirectory, ← normalize_of_absolute hdirectory, hnormal]
      by_cases hroot : Path.directory (t.key p) = t.key p
      · rw [hroot]
        exact Ne.symm hp.1
      · refine (hp.parent h.anchored ?_).2
        rw [parents, parentsUpTo]
        simp only [hnormal, beq_iff_eq, hroot, if_false]
        exact List.mem_cons_self
    simp only [FileStore.creationFault?, h.medium, hm, h.find? hne, h.any_parents hp]

/-- Opening a path that misses the key goes alike. -/
lemma openFile (h : Overlaid t k n s) (hp : t.Misses k p) (flags : OpenFlags) :
    (∃ f, t.openFile p flags = .error f ∧ s.openFile p flags = .error f) ∨
      ∃ t' s' position, t.openFile p flags = .ok (t', position) ∧
        s.openFile p flags = .ok (s', position) ∧ Overlaid t' k n s' := by
  have hne : t.key p ≠ k := Ne.symm hp.1
  simp only [FileStore.openFile, h.key, h.find? hne, h.medium, h.fault, h.absence hp,
    h.creationFault? hp]
  split
  · split_ifs
    · exact .inl ⟨_, rfl, rfl⟩
    · exact .inl ⟨_, rfl, rfl⟩
    · exact .inr ⟨_, _, _, rfl, rfl, h.set hne _⟩
    · exact .inr ⟨_, _, _, rfl, rfl, h.set hne _⟩
    · exact .inr ⟨_, _, _, rfl, rfl, h⟩
    · exact .inr ⟨_, _, _, rfl, rfl, h⟩
  · have hadd := h.add hp (.file [])
    cases flags.create with
    | false => exact .inl ⟨_, rfl, rfl⟩
    | true =>
      cases t.creationFault? (t.key p) with
      | some reason => exact .inl ⟨_, rfl, rfl⟩
      | none =>
        simp only [if_true]
        split_ifs
        · exact .inr ⟨_, _, _, rfl, rfl, hadd.set hne _⟩
        · exact .inr ⟨_, _, _, rfl, rfl, hadd.set hne _⟩
        · exact .inr ⟨_, _, _, rfl, rfl, hadd⟩
        · exact .inr ⟨_, _, _, rfl, rfl, hadd⟩

/-- A file that is opened to be emptied, in a directory that is there, is empty afterwards and
nothing else has changed. -/
lemma of_openFile (ht : t.Anchored) {d : Node} {position : Nat}
    (hdir : t.find? (normalize (Path.directory (t.key p))) = some d) (hd : d.isDirectory = true)
    (h : t.openFile p { writeOnly := true, create := true, truncate := true } =
      .ok (s, position)) :
    position = 0 ∧ ∃ m : Node, m.data = [] ∧ Overlaid t (t.key p) m s := by
  have hself : t.key (t.key p) = t.key p := key_key ht p
  simp only [FileStore.openFile] at h
  split at h
  · simp only [Bool.false_and, Bool.and_true, Bool.or_false, Bool.false_eq_true, if_false] at h
    split_ifs at h
    obtain ⟨rfl, rfl⟩ := Prod.mk.inj (Except.ok.inj h)
    exact ⟨rfl, _, rfl, of_set ht hself _⟩
  · simp only [if_true] at h
    split at h
    · cases h
    · have hparent : t.ensureParent ((t.key p).length + 1) (t.key p) = t := by
        rw [FileStore.ensureParent]
        simp only [hdir, hd, if_true, ite_self]
      have hadd : t.add (t.key p) (.file []) = t.set (t.key p) (.file []) := by
        rw [FileStore.add, hparent]
      rw [hadd] at h
      simp only [Bool.and_true, Bool.or_false, if_true, Bool.false_eq_true, if_false] at h
      obtain ⟨rfl, rfl⟩ := Prod.mk.inj (Except.ok.inj h)
      exact ⟨rfl, _, rfl, (of_set ht hself _).set_self _⟩

end Overlaid

end FileStore

namespace OpenFile

open FileStore

variable {s t : FileStore} {k : Bytes} {n : Node} {f : OpenFile}

/-- Reading another file gives the same. -/
lemma read_overlaid (h : Overlaid t k n s) (hf : t.key f.path ≠ k) (count : Nat) :
    f.read s count = f.read t count := by
  simp only [read, h.contents hf, h.medium, h.find? hf]

lemma remaining_overlaid (h : Overlaid t k n s) (hf : t.key f.path ≠ k) :
    f.remaining s = f.remaining t := by
  rw [remaining, remaining, h.contents hf]

/-- Writing to another file goes alike and leaves the difference. -/
lemma write_overlaid (h : Overlaid t k n s) (hf : t.key f.path ≠ k) (text : Bytes) :
    (f.write s text).1 = (f.write t text).1 ∧ (f.write s text).2.1 = (f.write t text).2.1 ∧
      Overlaid (f.write t text).2.2 k n (f.write s text).2.2 := by
  simp only [OpenFile.write, OpenFile.readOnlyReason, h.contents hf, h.medium]
  split_ifs
  · exact ⟨rfl, rfl, h⟩
  · exact ⟨rfl, rfl, h⟩
  · exact ⟨rfl, rfl, h.write hf _ text⟩
  · exact ⟨rfl, rfl, h.write hf _ text⟩

/-- Writing at the end of the file that makes the difference. -/
lemma write_overlaid_self (h : Overlaid t k n s) (text : Bytes) :
    (OpenFile.write { path := k, position := n.data.length } s text) =
      (.ok (), { path := k, position := (n.data ++ text).length },
        s.write k n.data.length text) ∧
      Overlaid t k { n with data := n.data ++ text } (s.write k n.data.length text) := by
  refine ⟨?_, ?_⟩
  · simp [OpenFile.write]
  · have hwrite := h.write_self n.data.length text
    rwa [overwrite_end] at hwrite

end OpenFile

end ConsoleShell
