/-
Clean paths and keys.

A clean path has no element that cleaning would drop, so cleaning it again changes nothing.
The same holds for the keys under which a store keeps its entries, and for the directories
above a key: each of them is the key of itself.
-/
import ConsoleShell.File.Store
import ConsoleShell.Proofs.Text.Splitting

namespace ConsoleShell

namespace Path

/-! ### Cleaning -/

/-- Elements, the last first, of which cleaning drops none. -/
def Tidy (rooted : Bool) : List Bytes → Prop
  | [] => True
  | e :: rest =>
    Tidy rooted rest ∧ Ascii.slash ∉ e ∧ e ≠ [] ∧ e ≠ [Ascii.dot] ∧
      (e = [Ascii.dot, Ascii.dot] → rooted = false ∧ ∀ x ∈ rest, x = e)

variable {rooted : Bool} {es : List Bytes}

lemma Tidy.not_mem (h : Tidy rooted es) : ∀ e ∈ es, Ascii.slash ∉ e := by
  induction es with
  | nil => exact fun e he => absurd he List.not_mem_nil
  | cons e rest ih =>
    obtain ⟨hrest, hslash, -⟩ := h
    exact List.forall_mem_cons.2 ⟨hslash, ih hrest⟩

lemma Tidy.ne_nil (h : Tidy rooted es) : ∀ e ∈ es, e ≠ [] := by
  induction es with
  | nil => exact fun e he => absurd he List.not_mem_nil
  | cons e rest ih =>
    obtain ⟨hrest, -, hne, -⟩ := h
    exact List.forall_mem_cons.2 ⟨hne, ih hrest⟩

lemma tidy_push (h : Tidy rooted es) {e : Bytes} (he : Ascii.slash ∉ e) :
    Tidy rooted (push rooted es e) := by
  rw [push.eq_def]
  by_cases hskip : (e == [] || e == [Ascii.dot]) = true
  · rw [if_pos hskip]
    exact h
  rw [if_neg hskip]
  simp only [Bool.or_eq_true, beq_iff_eq, not_or] at hskip
  by_cases hup : (e == [Ascii.dot, Ascii.dot]) = true
  · rw [if_pos hup]
    cases es with
    | nil =>
      cases rooted with
      | true => trivial
      | false => exact ⟨trivial, he, hskip.1, hskip.2, fun _ => ⟨rfl, by simp⟩⟩
    | cons top rest =>
      obtain ⟨hrest, -, -, -, htop⟩ := id h
      dsimp only
      split_ifs with heq
      · -- all elements so far lead up, and one more may follow
        rw [beq_iff_eq] at heq hup
        obtain ⟨hrooted, hall⟩ := htop heq
        have hsame : top = e := heq.trans hup.symm
        exact ⟨h, he, hskip.1, hskip.2,
          fun _ => ⟨hrooted, hsame ▸ List.forall_mem_cons.2 ⟨rfl, hall⟩⟩⟩
      · exact hrest
  · rw [if_neg hup]
    exact ⟨h, he, hskip.1, hskip.2, fun heq => absurd (beq_iff_eq.2 heq) hup⟩

/-- Tidy elements are all kept. -/
lemma push_of_tidy {e : Bytes} (h : Tidy rooted (e :: es)) : push rooted es e = e :: es := by
  obtain ⟨-, -, hne, hdot, hup⟩ := h
  rw [push.eq_def, if_neg (by simp [hne, hdot])]
  by_cases heq : (e == [Ascii.dot, Ascii.dot]) = true
  · rw [if_pos heq]
    obtain ⟨rfl, hall⟩ := hup (beq_iff_eq.1 heq)
    cases es with
    | nil => rfl
    | cons top rest =>
      have htop : top = [Ascii.dot, Ascii.dot] :=
        (hall top List.mem_cons_self).trans (beq_iff_eq.1 heq)
      dsimp only
      rw [htop, beq_self_eq_true, if_pos rfl]
  · rw [if_neg heq]

lemma foldl_push_of_tidy (h : Tidy rooted es) :
    es.reverse.foldl (push rooted) [] = es := by
  induction es with
  | nil => rfl
  | cons e rest ih =>
    rw [List.reverse_cons, List.foldl_append, ih h.1]
    exact push_of_tidy h

/-- The elements that cleaning keeps, the last first. -/
def kept (p : Bytes) : List Bytes :=
  (p.splitOn Ascii.slash).foldl (push (isAbsolute p)) []

lemma tidy_kept (p : Bytes) : Tidy (isAbsolute p) (kept p) := by
  have hfold : ∀ (es start : List Bytes), (∀ e ∈ es, Ascii.slash ∉ e) →
      Tidy (isAbsolute p) start → Tidy (isAbsolute p) (es.foldl (push (isAbsolute p)) start) := by
    intro es
    induction es with
    | nil => exact fun _ _ hstart => hstart
    | cons e es ih =>
      intro start hes hstart
      obtain ⟨he, hes⟩ := List.forall_mem_cons.1 hes
      exact ih _ hes (tidy_push hstart he)
  exact hfold _ [] (fun e he => Bytes.not_mem_of_mem_splitOn he) trivial

/-- The elements of a clean path, joined. -/
def body (p : Bytes) : Bytes := Bytes.join [Ascii.slash] (kept p).reverse

lemma clean_of_absolute {p : Bytes} (h : isAbsolute p = true) :
    clean p = Ascii.slash :: body p := by
  show (if isAbsolute p then Ascii.slash :: body p else _) = _
  rw [if_pos h]

lemma clean_of_relative {p : Bytes} (h : isAbsolute p = false) :
    clean p = if (body p).isEmpty then [Ascii.dot] else body p := by
  show (if isAbsolute p then _ else if (body p).isEmpty then [Ascii.dot] else body p) = _
  rw [if_neg (by simp [h])]

lemma splitOn_body {p : Bytes} (h : kept p ≠ []) :
    (body p).splitOn Ascii.slash = (kept p).reverse := by
  refine Bytes.splitOn_join (by simpa using h) fun e he => ?_
  exact (tidy_kept p).not_mem e (List.mem_reverse.1 he)

/-- The body of a clean path does not begin with a slash. -/
lemma isAbsolute_body (p : Bytes) : isAbsolute (body p) = false := by
  rw [body]
  cases hs : (kept p).reverse with
  | nil => rfl
  | cons e es =>
    have he : e ∈ kept p := List.mem_reverse.1 (hs ▸ List.mem_cons_self)
    have hslash := (tidy_kept p).not_mem e he
    cases e with
    | nil => exact absurd rfl ((tidy_kept p).ne_nil _ he)
    | cons x e =>
      have hx : x ≠ Ascii.slash := fun heq => hslash (heq ▸ List.mem_cons_self)
      have hhead : (Bytes.join [Ascii.slash] ((x :: e) :: es)).head? = some x := by
        cases es <;> rfl
      rw [isAbsolute, hhead]
      simpa using hx

lemma body_eq_nil_iff {p : Bytes} : body p = [] ↔ kept p = [] := by
  constructor
  · intro hbody
    by_contra hne
    have hsplit := splitOn_body hne
    rw [hbody] at hsplit
    have hmem : ([] : Bytes) ∈ kept p := by
      rw [← List.mem_reverse, ← hsplit]
      exact List.mem_singleton_self _
    exact (tidy_kept p).ne_nil _ hmem rfl
  · intro hkept
    rw [body, hkept]
    rfl

@[simp] lemma isAbsolute_clean (p : Bytes) : isAbsolute (clean p) = isAbsolute p := by
  cases h : isAbsolute p with
  | true => rw [clean_of_absolute h]; rfl
  | false =>
    rw [clean_of_relative h]
    split_ifs
    · rfl
    · exact isAbsolute_body p

/-- Cleaning a clean path changes nothing. -/
theorem clean_clean (p : Bytes) : clean (clean p) = clean p := by
  -- the elements of the clean path are those that were kept, perhaps after an empty one
  suffices h : kept (clean p) = kept p by
    have hbody : body (clean p) = body p := by rw [body, h, body]
    cases hp : isAbsolute p with
    | true =>
      rw [clean_of_absolute ((isAbsolute_clean p).trans hp), hbody, clean_of_absolute hp]
    | false =>
      rw [clean_of_relative ((isAbsolute_clean p).trans hp), hbody, clean_of_relative hp]
  have htidy := foldl_push_of_tidy (tidy_kept p)
  rw [kept, isAbsolute_clean]
  cases hp : isAbsolute p with
  | true =>
    rw [hp] at htidy
    have hsplit : (clean p).splitOn Ascii.slash = [] :: (body p).splitOn Ascii.slash := by
      rw [clean_of_absolute hp]
      exact Bytes.splitOn_append (List.not_mem_nil) (body p)
    rw [hsplit, List.foldl_cons]
    show ((body p).splitOn Ascii.slash).foldl (push true) [] = kept p
    by_cases hkept : kept p = []
    · rw [body_eq_nil_iff.2 hkept, hkept]
      rfl
    · rw [splitOn_body hkept, htidy]
  | false =>
    rw [hp] at htidy
    rw [clean_of_relative hp]
    by_cases hkept : kept p = []
    · rw [body_eq_nil_iff.2 hkept, hkept]
      rfl
    · have hbody : (body p).isEmpty = false := by
        simpa using mt body_eq_nil_iff.1 hkept
      rw [hbody, if_neg Bool.false_ne_true, splitOn_body hkept, htidy]

/-! ### Names and directories -/

lemma isAbsolute_resolve {dir : Bytes} (hdir : isAbsolute dir = true) (name : Bytes) :
    isAbsolute (resolve dir name) = true := by
  rw [resolve]
  split_ifs with hname
  · rw [isAbsolute_clean, hname]
  · obtain ⟨c, rest, rfl⟩ : ∃ c rest, dir = c :: rest := by
      cases dir with
      | nil => cases hdir
      | cons c rest => exact ⟨c, rest, rfl⟩
    -- the directory comes first, so the joined path begins at the root
    cases name with
    | nil =>
      show isAbsolute (clean (c :: rest)) = true
      rw [isAbsolute_clean, hdir]
    | cons x xs =>
      show isAbsolute (clean ((c :: rest) ++ [Ascii.slash] ++ (x :: xs))) = true
      rw [isAbsolute_clean]
      exact hdir

lemma clean_resolve {dir : Bytes} (hdir : isAbsolute dir = true) (name : Bytes) :
    clean (resolve dir name) = resolve dir name := by
  rw [resolve]
  split_ifs
  · exact clean_clean name
  · rw [join]
    split
    · rename_i h
      cases dir with
      | nil => cases hdir
      | cons c rest => simp at h
    · exact clean_clean _

lemma isAbsolute_directory {p : Bytes} (hp : isAbsolute p = true) :
    isAbsolute (directory p) = true := by
  obtain ⟨c, rest, rfl⟩ : ∃ c rest, p = c :: rest := by
    cases p with
    | nil => cases hp
    | cons c rest => exact ⟨c, rest, rfl⟩
  obtain rfl : c = Ascii.slash := by simpa [isAbsolute] using hp
  have hbase : (split (Ascii.slash :: rest)).2.length ≤ rest.length := by
    rw [split, List.length_reverse, List.reverse_cons, List.takeWhile_append]
    split_ifs
    · simp
    · exact (List.takeWhile_sublist _).length_le.trans (by simp)
  rw [directory, isAbsolute_clean]
  have htake : (split (Ascii.slash :: rest)).1 = Ascii.slash ::
      rest.take (rest.length - (split (Ascii.slash :: rest)).2.length) := by
    show (Ascii.slash :: rest).take ((Ascii.slash :: rest).length -
      (split (Ascii.slash :: rest)).2.length) = _
    rw [List.length_cons, Nat.succ_sub hbase, List.take_succ_cons]
  rw [htake]
  rfl

/-- A path is put together from its two parts. -/
lemma split_append (p : Bytes) : (split p).1 ++ (split p).2 = p := by
  have hsuffix : (split p).2 <:+ p := by
    rw [← List.reverse_prefix]
    simpa [split] using List.takeWhile_prefix _
  exact List.suffix_iff_eq_append.1 hsuffix

end Path

/-! ### Keys -/

namespace FileStore

lemma normalize_of_absolute {p : Bytes} (h : Path.isAbsolute p = true) :
    normalize p = Path.clean p := by
  have hclean : Path.isAbsolute (Path.clean p) = true := by rw [Path.isAbsolute_clean, h]
  rw [normalize]
  split_ifs with hdots
  · simp only [Bool.or_eq_true, beq_iff_eq] at hdots
    rcases hdots with heq | heq <;> rw [heq] at hclean <;> cases hclean
  · rfl

lemma normalize_normalize (p : Bytes) : normalize (normalize p) = normalize p := by
  rw [normalize.eq_def p]
  dsimp only
  split_ifs with hdots
  · decide
  · rw [normalize, Path.clean_clean, if_neg hdots]

/-- The system looks for relative paths from the root on. -/
def Anchored (s : FileStore) : Prop := s.medium = .system → Path.isAbsolute s.directory = true

variable {s : FileStore}

lemma key_of_absolute {p : Bytes} (h : Path.isAbsolute p = true) : s.key p = Path.clean p := by
  rw [key]
  cases s.medium with
  | memory => exact normalize_of_absolute h
  | system =>
    show Path.resolve s.directory p = _
    rw [Path.resolve, if_pos h]

/-- A key is the key of itself. -/
theorem key_key (hs : s.Anchored) (p : Bytes) : s.key (s.key p) = s.key p := by
  cases hm : s.medium with
  | memory =>
    simp only [key, hm]
    exact normalize_normalize p
  | system =>
    have hkey : s.key p = Path.resolve s.directory p := by rw [key, hm]
    rw [hkey, key_of_absolute (Path.isAbsolute_resolve (hs hm) p), Path.clean_resolve (hs hm)]

lemma isAbsolute_normalize_directory {k : Bytes} (hk : Path.isAbsolute k = true) :
    Path.isAbsolute (normalize (Path.directory k)) = true := by
  rw [normalize_of_absolute (Path.isAbsolute_directory hk), Path.isAbsolute_clean,
    Path.isAbsolute_directory hk]

/-- The directories above a key are those of keys like it, whatever every step up preserves. -/
lemma exists_of_mem_parentsUpTo {P : Bytes → Prop}
    (hup : ∀ k, P k → P (normalize (Path.directory k))) {fuel : Nat} {k d : Bytes} (hk : P k)
    (h : d ∈ parentsUpTo fuel k) : ∃ k', P k' ∧ d = normalize (Path.directory k') := by
  induction fuel generalizing k with
  | zero => cases h
  | succ fuel ih =>
    simp only [parentsUpTo] at h
    split_ifs at h with hroot
    · cases h
    · rcases List.mem_cons.1 h with rfl | h
      · exact ⟨k, hk, rfl⟩
      · exact ih (hup k hk) h

lemma normalize_of_mem_parentsUpTo {fuel : Nat} {k d : Bytes} (h : d ∈ parentsUpTo fuel k) :
    normalize d = d := by
  obtain ⟨k', -, rfl⟩ := exists_of_mem_parentsUpTo (P := fun _ => True) (fun _ => id) trivial h
  exact normalize_normalize _

lemma isAbsolute_of_mem_parentsUpTo {fuel : Nat} {k d : Bytes} (hk : Path.isAbsolute k = true)
    (h : d ∈ parentsUpTo fuel k) : Path.isAbsolute d = true := by
  obtain ⟨k', hk', rfl⟩ := exists_of_mem_parentsUpTo (P := fun k => Path.isAbsolute k = true)
    (fun _ => isAbsolute_normalize_directory) hk h
  exact isAbsolute_normalize_directory hk'

/-- The directories above a key are keys of themselves. -/
theorem key_of_mem_parents (hs : s.Anchored) {p d : Bytes} (h : d ∈ parents (s.key p)) :
    s.key d = d := by
  have hd : normalize d = d := normalize_of_mem_parentsUpTo h
  cases hm : s.medium with
  | memory =>
    rw [key, hm]
    exact hd
  | system =>
    have hkey : s.key p = Path.resolve s.directory p := by rw [key, hm]
    have hroot : Path.isAbsolute d = true := by
      refine isAbsolute_of_mem_parentsUpTo ?_ h
      rw [hkey]
      exact Path.isAbsolute_resolve (hs hm) p
    rw [key_of_absolute hroot, ← normalize_of_absolute hroot, hd]

end FileStore

end ConsoleShell
