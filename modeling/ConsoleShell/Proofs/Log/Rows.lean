/-
Rows that are counted under their keys.

A key is the text of a row, and a row of valid text is read back from its key, so different rows
have different keys.  The lines of a report are ordered by their counts and their keys, and no two
lines have the same key: there is one such list only, whatever the order of the calls and
whatever order the keys are visited in.
-/
import ConsoleShell.Log.KeyedCounter
import ConsoleShell.Proofs.Log.Report
import ConsoleShell.Proofs.Lookup
import ConsoleShell.Proofs.Text.Order

namespace ConsoleShell

/-! ### Entries of a counter -/

namespace Counter

variable {α : Type} [BEq α] [LawfulBEq α]

/-- The counter has one entry for each key that was counted, and its counts add up to the number
of keys. -/
structure Sound (c : Counter α) (ks : List α) : Prop where
  nodup : (c.counts.map Prod.fst).Nodup
  mem_iff : ∀ k, k ∈ c.counts.map Prod.fst ↔ k ∈ ks
  counts : c.Counts ks
  sum : (c.counts.map Prod.snd).sum = ks.length

omit [LawfulBEq α] in
lemma sound_empty : Sound (α := α) {} [] where
  nodup := List.nodup_nil
  mem_iff _ := Iff.rfl
  counts := counts_empty
  sum := rfl

lemma map_fst_bump (k : α) (counts : List (α × Nat)) :
    (bump k counts).map Prod.fst =
      if k ∈ counts.map Prod.fst then counts.map Prod.fst else counts.map Prod.fst ++ [k] := by
  induction counts with
  | nil => rfl
  | cons e counts ih =>
    obtain ⟨x, n⟩ := e
    rw [bump]
    cases hxk : x == k with
    | true =>
      obtain rfl := eq_of_beq hxk
      simp
    | false =>
      have hne : k ≠ x := fun h => by simp [h] at hxk
      simp only [Bool.false_eq_true, if_false, List.map_cons, ih, List.mem_cons, hne, false_or]
      split <;> simp

omit [LawfulBEq α] in
lemma sum_bump (k : α) (counts : List (α × Nat)) :
    ((bump k counts).map Prod.snd).sum = (counts.map Prod.snd).sum + 1 := by
  induction counts with
  | nil => rfl
  | cons e counts ih =>
    obtain ⟨x, n⟩ := e
    rw [bump]
    split
    · simp only [List.map_cons, List.sum_cons]
      omega
    · simp only [List.map_cons, List.sum_cons, ih]
      omega

variable {c : Counter α} {ks : List α}

lemma Sound.add (h : c.Sound ks) (k : α) : (c.add k).Sound (ks ++ [k]) where
  nodup := by
    rw [Counter.add, map_fst_bump]
    split
    · exact h.nodup
    · next hk =>
      rw [List.nodup_append_comm, List.singleton_append]
      exact List.nodup_cons.2 ⟨hk, h.nodup⟩
  mem_iff x := by
    rw [Counter.add, map_fst_bump, List.mem_append, List.mem_singleton, ← h.mem_iff]
    split
    · next hk => exact ⟨Or.inl, fun hx => hx.elim id fun hx => hx ▸ hk⟩
    · rw [List.mem_append, List.mem_singleton]
  counts := h.counts.add k
  sum := by
    rw [Counter.add, sum_bump, h.sum, List.length_append, List.length_singleton]

lemma sound_foldl (ks : List α) : Sound (ks.foldl Counter.add {}) ks := by
  induction ks using List.reverseRecOn with
  | nil => exact sound_empty
  | append_singleton ks k ih =>
    rw [List.foldl_concat]
    exact ih.add k

/-- An entry is a key that was counted with the number of its occurrences. -/
lemma Sound.mem_counts_iff (h : c.Sound ks) {k : α} {n : Nat} :
    (k, n) ∈ c.counts ↔ k ∈ ks ∧ n = ks.count k := by
  have hfind (n : Nat) : (c.counts.find? fun e => e.1 == k) = some (k, n) ↔ (k, n) ∈ c.counts :=
    (find?_key_eq_some_iff h.nodup).trans (and_iff_left rfl)
  have hcount {n : Nat} (hmem : (k, n) ∈ c.counts) : n = ks.count k := by
    rw [← h.counts k, count, (hfind n).2 hmem]
    rfl
  constructor
  · intro hmem
    exact ⟨(h.mem_iff k).1 (List.mem_map_of_mem hmem), hcount hmem⟩
  · rintro ⟨hk, rfl⟩
    obtain ⟨⟨x, n⟩, hmem, rfl⟩ := List.mem_map.1 ((h.mem_iff k).2 hk)
    exact hcount hmem ▸ hmem

end Counter

/-! ### Keys -/

namespace Json

/-- The fields of an object with strings. -/
def ofFields (fs : List (Bytes × Bytes)) : Json := .object (fs.map fun (k, v) => (k, .string v))

lemma wellFormed_ofFields (fs : List (Bytes × Bytes)) : (ofFields fs).WellFormed := by
  change FieldsWellFormed _
  induction fs with
  | nil => trivial
  | cons f fs ih => exact ⟨trivial, ih⟩

lemma depth_ofFields (fs : List (Bytes × Bytes)) : (ofFields fs).depth = 1 := by
  have hfields : fieldsDepth (fs.map fun (k, v) => (k, Json.string v)) = 0 := by
    induction fs with
    | nil => rfl
    | cons f fs ih => rw [List.map_cons, fieldsDepth, ih]; rfl
  rw [ofFields, depth, hfields]

lemma cleaned_ofFields (fs : List (Bytes × Bytes)) :
    (ofFields fs).cleaned = ofFields (fs.map fun (k, v) =>
      (Utf8.sanitize (Utf8.sanitize k), Utf8.sanitize (Utf8.sanitize v))) := by
  rw [ofFields, ofFields, cleaned]
  congr 1
  induction fs with
  | nil => rfl
  | cons f fs ih => rw [List.map_cons, fieldsCleaned, ih]; rfl

end Json

namespace KeyedCounter

variable {columns row : List Bytes} {rows : List (List Bytes)}

/-- A row of valid text with one value for each column. -/
structure Fits (columns row : List Bytes) : Prop where
  length_eq : row.length = columns.length
  valid : ∀ v ∈ row, Utf8.isValid v = true

/-- The values of a row are read back from its key. -/
lemma ofKey_key (h : ∀ v ∈ row, Utf8.isValid v = true) : ofKey (RowCounter.key row) = row := by
  let v : FieldValue := .words row
  have hdepth : v.value.depth ≤ Json.maxDepth := v.depth_value.trans (by decide)
  have hparse := Json.parse?_render { markup := true } v.wellFormed_value hdepth
  rw [FieldValue.cleaned_value (v := v) h] at hparse
  have hread : Json.parse? (RowCounter.key row) = some (.array (row.map .string)) := hparse
  rw [ofKey, hread]
  simp only [List.map_map]
  exact List.map_id row

/-- Different rows have different keys. -/
lemma key_inj {a b : List Bytes} (ha : ∀ v ∈ a, Utf8.isValid v = true)
    (hb : ∀ v ∈ b, Utf8.isValid v = true) (h : RowCounter.key a = RowCounter.key b) : a = b := by
  rw [← ofKey_key ha, h, ofKey_key hb]

/-! ### Values under the names of their columns -/

/-- The fields have the names of columns, in increasing order, and under each name the value that
the row has in the last column with the name. -/
structure Names (columns row : List Bytes) (fields : List (Bytes × Bytes)) : Prop where
  sorted : fields.Pairwise fun a b => a.1.lt b.1 = true
  mem_iff : ∀ name value, (name, value) ∈ fields ↔
    ∃ before after, columns.zip row = before ++ (name, value) :: after ∧
      ∀ field ∈ after, field.1 ≠ name

/-- Values under names, the last one of each name. -/
def putAll (pairs : List (Bytes × Bytes)) : List (Bytes × Bytes) := pairs.foldl put []

lemma putAll_concat (pairs : List (Bytes × Bytes)) (p : Bytes × Bytes) :
    putAll (pairs ++ [p]) = (putAll pairs).filter (fun f => f.1 != p.1) ++ [p] := by
  rw [putAll, List.foldl_concat]
  rfl

lemma nodup_putAll (pairs : List (Bytes × Bytes)) : ((putAll pairs).map Prod.fst).Nodup := by
  induction pairs using List.reverseRecOn with
  | nil => exact List.nodup_nil
  | append_singleton pairs p ih =>
    have hkept : (((putAll pairs).filter fun f => f.1 != p.1).map Prod.fst).Nodup :=
      ih.sublist (List.filter_sublist.map _)
    rw [putAll_concat, List.map_append, List.nodup_append_comm]
    refine List.nodup_cons.2 ⟨fun hmem => ?_, hkept⟩
    obtain ⟨f, hf, hname⟩ := List.mem_map.1 hmem
    have hne := (List.mem_filter.1 hf).2
    simp [hname] at hne

lemma mem_putAll_iff (pairs : List (Bytes × Bytes)) (name value : Bytes) :
    (name, value) ∈ putAll pairs ↔
      ∃ before after, pairs = before ++ (name, value) :: after ∧
        ∀ field ∈ after, field.1 ≠ name := by
  induction pairs using List.reverseRecOn with
  | nil => simp [putAll]
  | append_singleton pairs p ih =>
    rw [putAll_concat, List.mem_append, List.mem_filter, List.mem_singleton, ih]
    constructor
    · rintro (⟨⟨before, after, rfl, hafter⟩, hne⟩ | rfl)
      · refine ⟨before, after ++ [p], by simp, fun field hfield => ?_⟩
        rcases List.mem_append.1 hfield with hfield | hfield
        · exact hafter field hfield
        · rw [List.mem_singleton.1 hfield]
          simpa using fun h : p.1 = name => (bne_iff_ne.1 hne) h.symm
      · exact ⟨pairs, [], rfl, nofun⟩
    · rintro ⟨before, after, hpairs, hafter⟩
      -- the pair is the last one or among those before it
      rcases List.eq_nil_or_concat after with rfl | ⟨after, q, rfl⟩
      · exact .inr (List.append_inj_right' hpairs rfl |> List.singleton_injective).symm
      · have hsplit : pairs ++ [p] = (before ++ (name, value) :: after) ++ [q] := by
          rw [hpairs, List.concat_eq_append, List.append_assoc, List.cons_append]
        obtain ⟨rfl, hlast⟩ := List.append_inj' hsplit rfl
        obtain rfl := List.singleton_injective hlast
        refine .inl ⟨⟨before, after, rfl, fun field hfield => hafter field (by simp [hfield])⟩, ?_⟩
        exact bne_iff_ne.2 (hafter p (by simp)).symm

/-- The fields for a row. -/
def named (columns row : List Bytes) : List (Bytes × Bytes) :=
  (putAll (columns.zip row)).mergeSort fun a b => a.1.le b.1

lemma names_named (columns row : List Bytes) : Names columns row (named columns row) := by
  have hperm : (named columns row).Perm (putAll (columns.zip row)) := List.mergeSort_perm _ _
  have hnodup : ((named columns row).map Prod.fst).Nodup :=
    (hperm.map Prod.fst).nodup_iff.2 (nodup_putAll _)
  have hsorted : (named columns row).Pairwise fun a b => a.1.le b.1 = true :=
    List.pairwise_mergeSort
      (fun (a b c : Bytes × Bytes) (h : a.1.le b.1 = true) (h' : b.1.le c.1 = true) =>
        Bytes.le_trans h h') (fun a b => Bytes.le_total a.1 b.1) _
  constructor
  · refine (hsorted.and (List.pairwise_map.1 hnodup)).imp fun ⟨hle, hne⟩ => ?_
    exact (Bytes.le_iff.1 hle).resolve_right hne
  · intro name value
    rw [hperm.mem_iff, mem_putAll_iff]

/-- Where the names of the columns are in order, each of them has the value of its column. -/
lemma named_of_sorted (h : columns.Pairwise fun a b => a.lt b = true)
    (hlength : row.length = columns.length) : named columns row = columns.zip row := by
  have hnames : (columns.zip row).map Prod.fst = columns := List.map_fst_zip hlength.ge
  have hsorted : (columns.zip row).Pairwise fun a b => a.1.lt b.1 = true :=
    List.pairwise_map.1 (hnames.symm ▸ h)
  have hput (pairs : List (Bytes × Bytes))
      (hpairs : pairs.Pairwise fun a b => a.1.lt b.1 = true) : putAll pairs = pairs := by
    induction pairs using List.reverseRecOn with
    | nil => rfl
    | append_singleton pairs p ih =>
      obtain ⟨hfront, -, hlt⟩ := List.pairwise_append.1 hpairs
      rw [putAll_concat, ih hfront, List.filter_eq_self.2]
      intro f hf
      have hfp := hlt f hf p (List.mem_singleton_self p)
      refine bne_iff_ne.2 fun heq => ?_
      rw [heq, Bytes.lt_irrefl] at hfp
      cases hfp
  rw [named, hput _ hsorted]
  exact List.mergeSort_of_pairwise (hsorted.imp fun hlt => Bytes.le_iff.2 (.inl hlt))

/-! ### Lines -/

/-- The lines have each row once with the number of times that it was counted; rows with higher
counts come first, and rows with equal counts in the order of their keys. -/
structure Tallies (rows : List (List Bytes)) (lines : List (List Bytes × Nat)) : Prop where
  nodup : (lines.map Prod.fst).Nodup
  mem_iff : ∀ row n, (row, n) ∈ lines ↔ row ∈ rows ∧ n = rows.count row
  sum : (lines.map Prod.snd).sum = rows.length
  sorted : lines.Pairwise fun a b =>
    b.2 < a.2 ∨ a.2 = b.2 ∧ (RowCounter.key a.1).lt (RowCounter.key b.1) = true

/-- There is only one way to tally rows, and their order does not matter. -/
lemma Tallies.unique {rows rows' : List (List Bytes)} {lines lines' : List (List Bytes × Nat)}
    (h : Tallies rows lines) (h' : Tallies rows' lines') (hrows : rows'.Perm rows) :
    lines' = lines := by
  have hperm : lines'.Perm lines := by
    refine (List.perm_ext_iff_of_nodup h'.nodup.of_map h.nodup.of_map).2 fun ⟨row, n⟩ => ?_
    rw [h'.mem_iff, h.mem_iff, hrows.mem_iff, hrows.count_eq]
  refine hperm.eq_of_pairwise (fun a b _ _ hab hba => ?_) h'.sorted h.sorted
  -- neither line can be before the other one
  rcases hab with hab | ⟨hcount, hab⟩ <;> rcases hba with hba | ⟨hcount', hba⟩
  · exact absurd hba hab.asymm
  · omega
  · omega
  · rw [Bytes.lt_asymm hab] at hba
    cases hba

lemma before_iff (a b : List Bytes × Nat) :
    RowCounter.before a b = true ↔
      b.2 < a.2 ∨ a.2 = b.2 ∧ (RowCounter.key a.1).le (RowCounter.key b.1) = true := by
  rw [RowCounter.before]
  by_cases h : a.2 = b.2
  · simp [h]
  · simp [h]

lemma before_trans (a b c : List Bytes × Nat) (hab : RowCounter.before a b = true)
    (hbc : RowCounter.before b c = true) : RowCounter.before a c = true := by
  rw [before_iff] at *
  rcases hab with hab | ⟨hcount, hab⟩ <;> rcases hbc with hbc | ⟨hcount', hbc⟩
  · exact .inl (by omega)
  · exact .inl (by omega)
  · exact .inl (by omega)
  · exact .inr ⟨hcount.trans hcount', Bytes.le_trans hab hbc⟩

lemma before_total (a b : List Bytes × Nat) :
    (RowCounter.before a b || RowCounter.before b a) = true := by
  rw [Bool.or_eq_true, before_iff, before_iff]
  have htotal := Bytes.le_total (RowCounter.key a.1) (RowCounter.key b.1)
  rw [Bool.or_eq_true] at htotal
  rcases lt_trichotomy a.2 b.2 with hlt | heq | hlt
  · exact .inr (.inl hlt)
  · exact htotal.imp (fun h => .inr ⟨heq, h⟩) fun h => .inr ⟨heq.symm, h⟩
  · exact .inl (.inl hlt)

/-- Sorting the entries of a counter of rows tallies them. -/
lemma tallies_mergeSort {entries : List (List Bytes × Nat)}
    (hnodup : (entries.map Prod.fst).Nodup)
    (hmem : ∀ row n, (row, n) ∈ entries ↔ row ∈ rows ∧ n = rows.count row)
    (hsum : (entries.map Prod.snd).sum = rows.length)
    (hvalid : ∀ row ∈ rows, ∀ v ∈ row, Utf8.isValid v = true) :
    Tallies rows (entries.mergeSort RowCounter.before) := by
  have hperm := List.mergeSort_perm entries RowCounter.before
  have hsorted := List.pairwise_mergeSort before_trans before_total entries
  have hkeys := (hperm.map Prod.fst).nodup_iff.2 hnodup
  have hrow {e : List Bytes × Nat} (he : e ∈ entries.mergeSort RowCounter.before) :
      ∀ v ∈ e.1, Utf8.isValid v = true :=
    hvalid e.1 ((hmem e.1 e.2).1 (hperm.mem_iff.1 he)).1
  refine ⟨hkeys, fun row n => by rw [hperm.mem_iff, hmem], by rw [(hperm.map _).sum_eq, hsum], ?_⟩
  refine (hsorted.and (List.pairwise_map.1 hkeys)).imp_of_mem fun {a b} ha hb ⟨hbefore, hne⟩ => ?_
  -- different rows have different keys, so the order of the keys is strict
  refine ((before_iff a b).1 hbefore).imp_right fun ⟨hcount, hle⟩ => ⟨hcount, ?_⟩
  exact (Bytes.le_iff.1 hle).resolve_right fun hkey => hne (key_inj (hrow ha) (hrow hb) hkey)

/-! ### Reports -/

/-- The line of a report for a row with its count. -/
def lineOf (columns : List Bytes) (l : List Bytes × Nat) : Line where
  count := l.2
  event := named columns l.1
  key := RowCounter.key l.1

/-- The row of an entry with its count. -/
def unfolded (e : Bytes × Nat) : List Bytes × Nat := (ofKey e.1, e.2)

lemma line?_of_fits (h : Fits columns row) (n : Nat) :
    line? columns (RowCounter.key row, n) = some (lineOf columns (row, n)) := by
  rw [line?, ofKey_key h.valid, fields?, if_neg (by rw [h.length_eq]; exact lt_irrefl _)]
  rfl

/-- Rows of the right width are counted under their keys. -/
lemma foldlM_add? {c : KeyedCounter} (h : ∀ row ∈ rows, row.length = c.columns.length) :
    rows.foldlM add? c =
      some { c with keys := (rows.map RowCounter.key).foldl Counter.add c.keys } := by
  induction rows generalizing c with
  | nil => rfl
  | cons row rows ih =>
    obtain ⟨hrow, hrows⟩ := List.forall_mem_cons.1 h
    rw [List.foldlM_cons, add?, if_pos hrow]
    exact ih hrows

/-- The counter that has counted rows. -/
def counted (columns : List Bytes) (rows : List (List Bytes)) : KeyedCounter where
  columns
  keys := (rows.map RowCounter.key).foldl Counter.add {}

lemma count_map_key (h : ∀ r ∈ rows, ∀ v ∈ r, Utf8.isValid v = true) (hrow : row ∈ rows) :
    (rows.map RowCounter.key).count (RowCounter.key row) = rows.count row := by
  rw [List.count, List.countP_map, List.count]
  refine List.countP_congr fun r hr => ?_
  simp only [Function.comp_apply, beq_iff_eq]
  exact ⟨fun hkey => key_inj (h r hr) (h row hrow) hkey, fun heq => by rw [heq]⟩

/-- The entries of the counter are the keys of the rows with the counts of these rows. -/
lemma mem_counted_iff (h : ∀ r ∈ rows, ∀ v ∈ r, Utf8.isValid v = true) (e : Bytes × Nat) :
    e ∈ (counted columns rows).keys.counts ↔
      ∃ row ∈ rows, e = (RowCounter.key row, rows.count row) := by
  obtain ⟨k, n⟩ := e
  rw [counted, (Counter.sound_foldl _).mem_counts_iff, List.mem_map]
  constructor
  · rintro ⟨⟨row, hrow, rfl⟩, rfl⟩
    exact ⟨row, hrow, by rw [count_map_key h hrow]⟩
  · rintro ⟨row, hrow, heq⟩
    obtain ⟨rfl, rfl⟩ := Prod.mk.inj heq
    exact ⟨⟨row, hrow, rfl⟩, (count_map_key h hrow).symm⟩

lemma mapM_eq_some {α β : Type} {f : α → Option β} {g : α → β} {xs : List α}
    (h : ∀ x ∈ xs, f x = some (g x)) : xs.mapM f = some (xs.map g) := by
  induction xs with
  | nil => rfl
  | cons x xs ih =>
    obtain ⟨hx, hxs⟩ := List.forall_mem_cons.1 h
    rw [List.mapM_cons, hx, ih hxs]
    rfl

section Visited

variable {visited : List (Bytes × Nat)} (h : ∀ row ∈ rows, Fits columns row)
  (hvisited : visited.Perm (counted columns rows).keys.counts)

include h hvisited

lemma exists_row {e : Bytes × Nat} (he : e ∈ visited) :
    ∃ row ∈ rows, e = (RowCounter.key row, rows.count row) ∧ unfolded e = (row, rows.count row) := by
  obtain ⟨row, hrow, rfl⟩ :=
    (mem_counted_iff (fun r hr => (h r hr).valid) e).1 (hvisited.mem_iff.1 he)
  exact ⟨row, hrow, rfl, by rw [unfolded, ofKey_key (h row hrow).valid]⟩

/-- Whatever order the entries are visited in, their rows are tallied. -/
lemma tallies_visited : Tallies rows ((visited.map unfolded).mergeSort RowCounter.before) := by
  have hvalid : ∀ r ∈ rows, ∀ v ∈ r, Utf8.isValid v = true := fun r hr => (h r hr).valid
  have hsound := Counter.sound_foldl (rows.map RowCounter.key)
  refine tallies_mergeSort ?_ (fun row n => ?_) ?_ hvalid
  · -- the rows are distinct because their keys are
    have hkeys : (visited.map Prod.fst).Nodup := (hvisited.map Prod.fst).nodup_iff.2 hsound.nodup
    have hrows : (visited.map unfolded).map Prod.fst = (visited.map Prod.fst).map ofKey := by
      rw [List.map_map, List.map_map]
      rfl
    rw [hrows]
    refine hkeys.map_on fun k hk k' hk' heq => ?_
    obtain ⟨e, he, rfl⟩ := List.mem_map.1 hk
    obtain ⟨e', he', rfl⟩ := List.mem_map.1 hk'
    obtain ⟨row, hrow, rfl, -⟩ := exists_row h hvisited he
    obtain ⟨row', hrow', rfl, -⟩ := exists_row h hvisited he'
    rw [ofKey_key (hvalid row hrow), ofKey_key (hvalid row' hrow')] at heq
    rw [heq]
  · rw [List.mem_map]
    constructor
    · rintro ⟨e, he, heq⟩
      obtain ⟨r, hr, -, hunfolded⟩ := exists_row h hvisited he
      obtain ⟨rfl, rfl⟩ := Prod.mk.inj (hunfolded.symm.trans heq)
      exact ⟨hr, rfl⟩
    · rintro ⟨hrow, rfl⟩
      refine ⟨(RowCounter.key row, rows.count row), ?_, by rw [unfolded, ofKey_key (hvalid row hrow)]⟩
      exact hvisited.mem_iff.2 ((mem_counted_iff hvalid _).2 ⟨row, hrow, rfl⟩)
  · have hcounts : (visited.map unfolded).map Prod.snd = visited.map Prod.snd := by
      rw [List.map_map]
      rfl
    have hsum : (visited.map Prod.snd).sum = (rows.map RowCounter.key).length :=
      (hvisited.map Prod.snd).sum_eq.trans hsound.sum
    rw [hcounts, hsum, List.length_map]

/-- The lines of a report are those of the rows that were tallied. -/
lemma report?_visited :
    report? columns visited = some (.array
      (((visited.map unfolded).mergeSort RowCounter.before).map fun l => (lineOf columns l).json)) := by
  have hline : ∀ e ∈ visited, line? columns e = some (lineOf columns (unfolded e)) := by
    intro e he
    obtain ⟨row, hrow, rfl, hunfolded⟩ := exists_row h hvisited he
    rw [hunfolded, line?_of_fits (h row hrow)]
  have hlines : visited.mapM (line? columns) =
      some ((visited.map unfolded).map (lineOf columns)) := by
    rw [mapM_eq_some hline, List.map_map]
    rfl
  have hsort : ((visited.map unfolded).map (lineOf columns)).mergeSort Line.before =
      ((visited.map unfolded).mergeSort RowCounter.before).map (lineOf columns) :=
    (List.map_mergeSort (r := RowCounter.before) (s := Line.before) (f := lineOf columns)
      fun _ _ _ _ => rfl).symm
  rw [report?, hlines, Option.map_some, hsort, List.map_map]
  rfl

end Visited

/-- A value shows a row with its count: the values of the row stand under the names of their
columns. -/
def Shows (columns : List Bytes) (l : List Bytes × Nat) (value : Json) : Prop :=
  ∃ fields, Names columns l.1 fields ∧
    value = .object [("count", .ofNat l.2),
      ("event", .ofFields (fields.map fun (k, v) => (Utf8.sanitize k, v)))]

/-- The value of a line is read back from a report. -/
lemma shows_cleaned (l : List Bytes × Nat) (h : Fits columns l.1) :
    Shows columns l (lineOf columns l).json.cleaned := by
  have hnames := names_named columns l.1
  have hvalid {k v : Bytes} (hf : (k, v) ∈ named columns l.1) : Utf8.isValid v = true := by
    obtain ⟨before, after, hzip, -⟩ := (hnames.mem_iff k v).1 hf
    exact h.valid v (List.of_mem_zip (hzip ▸ by simp : (k, v) ∈ columns.zip l.1)).2
  have hfields : (Json.ofFields (named columns l.1)).cleaned =
      .ofFields ((named columns l.1).map fun (k, v) => (Utf8.sanitize k, v)) := by
    rw [Json.cleaned_ofFields]
    congr 1
    refine List.map_congr_left fun (k, v) hf => ?_
    simp only [Utf8.sanitize_sanitize, Utf8.sanitize_of_isValid (hvalid hf)]
  have hname (s : String) : Utf8.sanitize (Utf8.sanitize s) = s := by
    rw [Utf8.sanitize_sanitize, Utf8.ofString_eq_encode,
      Utf8.sanitize_of_isValid (Utf8.isValid_encode _)]
  refine ⟨named columns l.1, hnames, ?_⟩
  change Json.object [(Utf8.sanitize (Utf8.sanitize "count"), .ofNat l.2),
    (Utf8.sanitize (Utf8.sanitize "event"), (Json.ofFields (named columns l.1)).cleaned)] = _
  rw [hname, hname, hfields]

/-- The text of a report is that of its lines. -/
lemma parse?_render_lines {lines : List (List Bytes × Nat)} (style : Json.Style) :
    Json.parse? ((Json.array (lines.map fun l => (lineOf columns l).json)).render style) =
      some (.array (lines.map fun l => (lineOf columns l).json.cleaned)) := by
  have hform (l : Line) : l.json.WellFormed :=
    ⟨Json.wellFormed_ofNat _, Json.wellFormed_ofFields _, trivial⟩
  have hdepth (l : Line) : l.json.depth ≤ 2 := by
    change max 0 (max (Json.ofFields l.event).depth 0) + 1 ≤ 2
    rw [Json.depth_ofFields]
    exact le_rfl
  let report : Json := .array (lines.map fun l => (lineOf columns l).json)
  have hreport : report.WellFormed :=
    Json.itemsWellFormed_of (List.forall_mem_map.2 fun l _ => hform (lineOf columns l))
  have hitems : Json.itemsDepth (lines.map fun l => (lineOf columns l).json) ≤ 2 :=
    Json.itemsDepth_le (List.forall_mem_map.2 fun l _ => hdepth (lineOf columns l))
  have hlow : report.depth ≤ Json.maxDepth := by
    rw [Json.depth, Json.maxDepth]
    omega
  rw [Json.parse?_render style hreport hlow, Json.cleaned, Json.itemsCleaned_eq, List.map_map]
  rfl

/-- A counter of rows counts rows of valid text as they are. -/
lemma foldl_rowCounter {counter : Counter (List Bytes)} (h : ∀ row ∈ rows, Fits columns row) :
    rows.foldl RowCounter.add { columns, rows := counter } =
      { columns, rows := rows.foldl Counter.add counter } := by
  induction rows generalizing counter with
  | nil => rfl
  | cons row rows ih =>
    obtain ⟨hrow, hrows⟩ := List.forall_mem_cons.1 h
    have hclean : row.map Utf8.sanitize = row :=
      (List.map_congr_left fun v hv => Utf8.sanitize_of_isValid (hrow.valid v hv)).trans
        (List.map_id row)
    rw [List.foldl_cons, RowCounter.add, RowCounter.add?, if_pos hrow.length_eq, hclean]
    exact ih hrows

/-- Counting rows by themselves gives the same lines, and the same report if the names of the
columns are in order. -/
lemma json_rowCounter (h : ∀ row ∈ rows, Fits columns row)
    (hcolumns : columns.Pairwise fun a b => a.lt b = true)
    {lines : List (List Bytes × Nat)} (hlines : Tallies rows lines) :
    (rows.foldl RowCounter.add { columns }).json =
      .array (lines.map fun l => (lineOf columns l).json) := by
  have hsound := Counter.sound_foldl rows
  have htallies : Tallies rows ((rows.foldl Counter.add {}).counts.mergeSort RowCounter.before) :=
    tallies_mergeSort hsound.nodup (fun _ _ => hsound.mem_counts_iff) hsound.sum
      fun row hrow => (h row hrow).valid
  rw [foldl_rowCounter h, RowCounter.json, RowCounter.sorted, hlines.unique htallies (List.Perm.refl rows)]
  congr 1
  refine List.map_congr_left fun l hl => ?_
  obtain ⟨row, n⟩ := l
  have hrow := h row ((hlines.mem_iff row n).1 hl).1
  rw [lineOf, Line.json, named_of_sorted hcolumns hrow.length_eq]

end KeyedCounter

end ConsoleShell
