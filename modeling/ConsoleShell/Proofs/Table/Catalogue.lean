/-
Catalogues as finite maps.

A catalogue together with the index beside it stands for a map from names to definitions.  The
listing and the index refer to the same records, and the records left behind by clearing are
released, so that reading the listing and looking up a name give the same answer.  Writing into
a record, adding one and clearing keep this relation while the map is updated.
-/
import ConsoleShell.Proofs.Lookup
import ConsoleShell.Proofs.Text.Order
import ConsoleShell.Table

namespace ConsoleShell

/-! ### The index -/

namespace Registry

variable {α : Type} {r r' : Registry α} {domain name : Bytes} {value : α}

lemma find?_add? (h : r.add? domain name value = some r') (d n : Bytes) :
    r'.find? d n = if (d, n) = (domain, name) then some value else r.find? d n := by
  rw [add?] at h
  split at h
  · cases h
  · obtain rfl := Option.some.inj h
    rw [find?, find?, List.find?_cons]
    by_cases hkey : (d, n) = (domain, name)
    · rw [if_pos hkey, hkey, beq_self_eq_true]
      rfl
    · have hne : ((domain, name) == (d, n)) = false := beq_eq_false_iff_ne.2 (Ne.symm hkey)
      rw [if_neg hkey, hne]
      simp only
      rw [find?_filter_key_of_ne Prod.fst hkey]

end Registry

/-! ### Records -/

namespace Catalogue

variable {α : Type} {c : Catalogue α} {id i : Nat} {a b : α} {n : Bytes}

lemma definition?_of_live? (h : c.live? id = some a) : c.definition? id = some a := by
  simp only [live?, definition?, Option.map_eq_some_iff, Option.filter_eq_some_iff] at *
  obtain ⟨r, ⟨hr, -⟩, ha⟩ := h
  exact ⟨r, hr, ha⟩

lemma records_overwrite (c : Catalogue α) (id i : Nat) (a : α) :
    (c.overwrite id a).records[i]? =
      c.records[i]?.map fun r => if i = id then { r with definition := a } else r := by
  rw [overwrite, List.getElem?_modify]
  by_cases h : id = i
  · simp [h]
  · simp [h, Ne.symm h]

lemma definition?_overwrite (c : Catalogue α) (id i : Nat) (a : α) :
    (c.overwrite id a).definition? i =
      (c.definition? i).map fun b => if i = id then a else b := by
  rw [definition?, records_overwrite, definition?, Option.map_map, Option.map_map]
  congr 1
  funext r
  simp only [Function.comp_apply]
  split_ifs <;> rfl

lemma live?_overwrite (c : Catalogue α) (id i : Nat) (a : α) :
    (c.overwrite id a).live? i = (c.live? i).map fun b => if i = id then a else b := by
  rw [live?, records_overwrite, live?]
  cases c.records[i]? with
  | none => rfl
  | some r => cases hr : r.released <;> by_cases h : i = id <;> simp [Option.filter, hr, h]

lemma records_add (c : Catalogue α) (i id : Nat) (a : α) :
    (c.add i a).records[id]? =
      if id = c.records.length then some { definition := a } else c.records[id]? := by
  rw [add]
  split_ifs with h
  · simp [h]
  · rcases lt_or_gt_of_ne h with h | h
    · rw [List.getElem?_append_left h]
    · rw [List.getElem?_eq_none (by simp; omega), List.getElem?_eq_none (by omega)]

lemma definition?_add (c : Catalogue α) (i id : Nat) (a : α) :
    (c.add i a).definition? id =
      if id = c.records.length then some a else c.definition? id := by
  rw [definition?, records_add]
  split_ifs <;> rfl

lemma live?_add (c : Catalogue α) (i id : Nat) (a : α) :
    (c.add i a).live? id = if id = c.records.length then some a else c.live? id := by
  rw [live?, records_add]
  split_ifs <;> rfl

lemma find?_eq_some_iff {m : Option Mark} :
    c.find? m = some a ↔ ∃ id, m = some (.record id) ∧ c.live? id = some a := by
  rcases m with - | ⟨id⟩ | - <;> simp [find?]

/-- The record to be made next is none that is there. -/
lemma ne_of_definition? (h : c.definition? id = some a) : id ≠ c.records.length := by
  rintro rfl
  simp [definition?] at h

lemma definition?_clear (c : Catalogue α) (id : Nat) :
    c.clear.definition? id = c.definition? id := by
  simp only [definition?, clear, List.getElem?_mapIdx, Option.map_map]
  congr 1
  funext r
  simp only [Function.comp_apply]
  split_ifs <;> rfl

lemma live?_clear (c : Catalogue α) (id : Nat) :
    c.clear.live? id = if id ∈ c.order then none else c.live? id := by
  simp only [live?, clear, List.getElem?_mapIdx]
  cases c.records[id]? with
  | none => simp
  | some r => split_ifs <;> simp

/-! ### The search in the listing -/

variable {name : α → Bytes}

/-- One listed record stands before another. -/
def Before (name : α → Bytes) (c : Catalogue α) (i j : Nat) : Prop :=
  ∃ a b, c.definition? i = some a ∧ c.definition? j = some b ∧ (name a).lt (name b) = true

/-- The search splits an ordered listing into the names below the one searched for and the
others. -/
lemma exists_split (hvalid : ∀ id ∈ c.order, ∃ a, c.definition? id = some a)
    (hinc : c.order.Pairwise (c.Before name)) (n : Bytes) :
    ∃ front back, c.order = front ++ back ∧ c.position name n = front.length ∧
      (∀ id ∈ front, ∃ a, c.definition? id = some a ∧ (name a).lt n = true) ∧
      (∀ id ∈ back, ∃ a, c.definition? id = some a ∧ (name a).lt n = false) := by
  rw [position]
  generalize c.order = ids at hvalid hinc ⊢
  induction ids with
  | nil => exact ⟨[], [], rfl, rfl, by simp, by simp⟩
  | cons id ids ih =>
    obtain ⟨a, ha⟩ := hvalid id List.mem_cons_self
    obtain ⟨hbefore, hinc⟩ := List.pairwise_cons.1 hinc
    cases hlt : (name a).lt n with
    | true =>
      obtain ⟨front, back, rfl, hpos, hfront, hback⟩ :=
        ih (fun i hi => hvalid i (List.mem_cons_of_mem id hi)) hinc
      refine ⟨id :: front, back, rfl, ?_, ?_, hback⟩
      · simp [List.findIdx_cons, ha, hlt, hpos]
      · exact List.forall_mem_cons.2 ⟨⟨a, ha, hlt⟩, hfront⟩
    | false =>
      refine ⟨[], id :: ids, rfl, ?_, by simp, List.forall_mem_cons.2 ⟨⟨a, ha, hlt⟩, ?_⟩⟩
      · simp [List.findIdx_cons, ha, hlt]
      · intro i hi
        obtain ⟨a', b, ha', hb, hab⟩ := hbefore i hi
        obtain rfl := Option.some.inj (ha.symm.trans ha')
        refine ⟨b, hb, Bool.eq_false_iff.2 fun hbn => ?_⟩
        rw [Bytes.lt_trans hab hbn] at hlt
        cases hlt

lemma insertIdx_length (front back : List Nat) (id : Nat) :
    (front ++ back).insertIdx front.length id = front ++ id :: back := by
  induction front with
  | nil => rfl
  | cons i front ih => simp [ih]

/-- In an ordered listing the search finds the record with a name if there is one. -/
lemma holder?_eq_some_iff (hvalid : ∀ id ∈ c.order, ∃ a, c.definition? id = some a)
    (hinc : c.order.Pairwise (c.Before name)) :
    c.holder? name n = some (id, a) ↔ id ∈ c.order ∧ c.definition? id = some a ∧ name a = n := by
  obtain ⟨front, back, horder, hpos, hfront, hback⟩ := exists_split hvalid hinc n
  have hnot : ∀ {b}, (name b).lt n = true → name b ≠ n := by
    rintro b hlt rfl
    rw [Bytes.lt_irrefl] at hlt
    cases hlt
  rw [horder] at hinc ⊢
  rw [holder?, horder, hpos, List.getElem?_append_right le_rfl, Nat.sub_self]
  cases back with
  | nil =>
    refine ⟨nofun, ?_⟩
    rintro ⟨hid, ha, hname⟩
    obtain ⟨b, hb, hlt⟩ := hfront id (by simpa using hid)
    obtain rfl := Option.some.inj (ha.symm.trans hb)
    exact absurd hname (hnot hlt)
  | cons i back =>
    obtain ⟨b, hb, hge⟩ := hback i List.mem_cons_self
    simp only [List.getElem?_cons_zero, Option.bind_eq_bind, Option.bind_some, hb]
    constructor
    · intro h
      split at h
      · obtain ⟨rfl, rfl⟩ := Prod.mk.inj (Option.some.inj h)
        exact ⟨by simp, hb, ‹_›⟩
      · cases h
    · rintro ⟨hid, ha, hname⟩
      rcases List.mem_append.1 hid with hid | hid
      · obtain ⟨b', hb', hlt⟩ := hfront id hid
        obtain rfl := Option.some.inj (ha.symm.trans hb')
        exact absurd hname (hnot hlt)
      rcases List.mem_cons.1 hid with rfl | hid
      · obtain rfl := Option.some.inj (ha.symm.trans hb)
        rw [if_pos hname]
      · -- a later record has a greater name
        have hbefore := (List.pairwise_cons.1 (List.pairwise_append.1 hinc).2.1).1 id hid
        obtain ⟨b', a', hb', ha', hlt⟩ := hbefore
        obtain rfl := Option.some.inj (hb.symm.trans hb')
        obtain rfl := Option.some.inj (ha.symm.trans ha')
        rw [hname, hge] at hlt
        cases hlt

/-- Filing leaves the other domains of the index alone. -/
lemma find?_of_file {registry registry' : Registry Mark} {domain d : Bytes} {c' : Catalogue α}
    (hfile : c.file? name registry domain a = some (c', registry')) (hd : d ≠ domain) :
    registry'.find? d = registry.find? d := by
  rw [file?] at hfile
  split at hfile
  · obtain ⟨-, rfl⟩ := Prod.mk.inj (Option.some.inj hfile)
    rfl
  · obtain ⟨r, hadd, hfile⟩ := Option.map_eq_some_iff.1 hfile
    obtain ⟨-, rfl⟩ := Prod.mk.inj hfile
    funext n
    rw [Registry.find?_add? hadd, if_neg fun heq => hd (Prod.mk.inj heq).1]

/-- What can be found after filing is what has been filed, or could be found before. -/
lemma find?_file {registry registry' : Registry Mark} {domain : Bytes} {c' : Catalogue α}
    (hfile : c.file? name registry domain a = some (c', registry'))
    (hb : c'.find? (registry'.find? domain n) = some b) :
    b = a ∨ c.find? (registry.find? domain n) = some b := by
  obtain ⟨i, hi, hlive⟩ := find?_eq_some_iff.1 hb
  rw [file?] at hfile
  split at hfile
  · obtain ⟨rfl, rfl⟩ := Prod.mk.inj (Option.some.inj hfile)
    rw [live?_overwrite, Option.map_eq_some_iff] at hlive
    obtain ⟨d, hd, hlive⟩ := hlive
    split_ifs at hlive
    · exact .inl hlive.symm
    · exact .inr (find?_eq_some_iff.2 ⟨i, hi, hlive ▸ hd⟩)
  · obtain ⟨r, hadd, hfile⟩ := Option.map_eq_some_iff.1 hfile
    obtain ⟨rfl, rfl⟩ := Prod.mk.inj hfile
    rw [live?_add] at hlive
    split_ifs at hlive with hnew
    · exact .inl (Option.some.inj hlive).symm
    · rw [Registry.find?_add? hadd] at hi
      split_ifs at hi
      · exact absurd (Mark.record.inj (Option.some.inj hi)).symm hnew
      · exact .inr (find?_eq_some_iff.2 ⟨i, hi, hlive⟩)

/-! ### The map that a catalogue stands for -/

/-- A catalogue and the index of its names stand for a map from names to definitions. -/
structure Represents (name : α → Bytes) (c : Catalogue α) (index : Bytes → Option Mark)
    (f : Bytes → Option α) : Prop where
  increasing : c.order.Pairwise (c.Before name)
  /-- The listed records are those that have not been released. -/
  mem_order : ∀ id, id ∈ c.order ↔ ∃ a, c.live? id = some a
  /-- The index leads to every definition that has not been released. -/
  indexed : ∀ id a, c.live? id = some a → index (name a) = some (.record id)
  /-- The index leads from a name to definitions with that name only. -/
  owned : ∀ n id, index n = some (.record id) → ∃ a, c.definition? id = some a ∧ name a = n
  map_eq : ∀ n a, f n = some a ↔ name a = n ∧ ∃ id, c.live? id = some a

namespace Represents

variable {index : Bytes → Option Mark} {f : Bytes → Option α}

lemma valid (h : Represents name c index f) (hid : id ∈ c.order) :
    ∃ a, c.definition? id = some a :=
  ((h.mem_order id).1 hid).imp fun _ => definition?_of_live?

/-- The listing is what the map holds. -/
lemma mem_listed (h : Represents name c index f) : a ∈ c.listed ↔ f (name a) = some a := by
  rw [listed, List.mem_filterMap, h.map_eq]
  constructor
  · rintro ⟨id, hid, ha⟩
    obtain ⟨b, hb⟩ := (h.mem_order id).1 hid
    obtain rfl := Option.some.inj (ha.symm.trans (definition?_of_live? hb))
    exact ⟨rfl, id, hb⟩
  · rintro ⟨-, id, ha⟩
    exact ⟨id, (h.mem_order id).2 ⟨a, ha⟩, definition?_of_live? ha⟩

lemma pairwise_listed (h : Represents name c index f) :
    c.listed.Pairwise fun a b => (name a).lt (name b) = true := by
  refine h.increasing.filterMap _ ?_
  rintro i j ⟨a, b, ha, hb, hlt⟩ a' ha' b' hb'
  obtain rfl := Option.some.inj (ha.symm.trans ha')
  obtain rfl := Option.some.inj (hb.symm.trans hb')
  exact hlt

/-- Looking up a name gives what the map holds. -/
lemma find?_eq (h : Represents name c index f) (n : Bytes) : c.find? (index n) = f n := by
  refine Option.ext fun a => ?_
  rw [find?_eq_some_iff, h.map_eq]
  constructor
  · rintro ⟨id, hindex, ha⟩
    obtain ⟨b, hb, hname⟩ := h.owned n id hindex
    obtain rfl := Option.some.inj ((definition?_of_live? ha).symm.trans hb)
    exact ⟨hname, id, ha⟩
  · rintro ⟨rfl, id, ha⟩
    exact ⟨id, h.indexed id a ha, ha⟩

/-- A definition that is alone in having its name is put in a record that is new or had one
with this name. -/
lemma update {c' : Catalogue α} (h : Represents name c index f)
    (hdefinition : c'.definition? = Function.update c.definition? id (some a))
    (hlive : c'.live? = Function.update c.live? id (some a))
    (hinc : c'.order.Pairwise (c'.Before name)) (horder : ∀ i, i ∈ c'.order ↔ i = id ∨ i ∈ c.order)
    (hown : ∀ b, c.definition? id = some b → name b = name a)
    (halone : ∀ i b, c.live? i = some b → name b = name a → i = id) :
    Represents name c' (Function.update index (name a) (some (.record id)))
      (Function.update f (name a) (some a)) where
  increasing := hinc
  mem_order i := by
    rw [horder, hlive]
    by_cases hi : i = id
    · simp [hi]
    · simp [hi, h.mem_order]
  indexed i b hb := by
    rw [hlive] at hb
    by_cases hi : i = id
    · subst hi
      obtain rfl : a = b := by simpa using hb
      exact Function.update_self ..
    · rw [Function.update_of_ne hi] at hb
      rw [Function.update_of_ne fun hname => hi (halone i b hb hname)]
      exact h.indexed i b hb
  owned n i hi := by
    rw [hdefinition]
    by_cases hn : n = name a
    · subst hn
      obtain rfl : id = i := by simpa using hi
      exact ⟨a, Function.update_self .., rfl⟩
    · rw [Function.update_of_ne hn] at hi
      obtain ⟨b, hb, rfl⟩ := h.owned n i hi
      have hne : i ≠ id := by
        rintro rfl
        exact hn (hown b hb)
      exact ⟨b, by rwa [Function.update_of_ne hne], rfl⟩
  map_eq n b := by
    rw [hlive]
    by_cases hn : n = name a
    · subst hn
      rw [Function.update_self]
      constructor
      · intro hb
        obtain rfl := Option.some.inj hb
        exact ⟨rfl, id, Function.update_self ..⟩
      · rintro ⟨hname, i, hi⟩
        by_cases hne : i = id
        · subst hne
          rwa [Function.update_self] at hi
        · rw [Function.update_of_ne hne] at hi
          exact absurd (halone i b hi hname) hne
    · rw [Function.update_of_ne hn, h.map_eq]
      refine and_congr_right fun hname => exists_congr fun i => ?_
      by_cases hi : i = id
      · subst hi
        rw [Function.update_self]
        constructor
        · intro hb
          exact absurd (hname.symm.trans (hown b (definition?_of_live? hb))) hn
        · intro hb
          obtain rfl := Option.some.inj hb
          exact absurd hname.symm hn
      · rw [Function.update_of_ne hi]

/-- The only record with a name that has not been released. -/
lemma eq_of_name (h : Represents name c index f) (ha : c.live? id = some a)
    (hb : c.live? i = some b) (hname : name b = name a) : i = id := by
  have hi := h.indexed i b hb
  rw [hname, h.indexed id a ha] at hi
  exact (Mark.record.inj (Option.some.inj hi)).symm

/-- Writing into a listed record updates the map at its name. -/
lemma overwrite (h : Represents name c index f) (hid : id ∈ c.order)
    (hb : c.definition? id = some b) (hname : name b = name a) :
    Represents name (c.overwrite id a) index (Function.update f (name a) (some a)) := by
  obtain ⟨b', hlive⟩ := (h.mem_order id).1 hid
  obtain rfl := Option.some.inj ((definition?_of_live? hlive).symm.trans hb)
  have hindex : index = Function.update index (name a) (some (.record id)) := by
    rw [← hname, ← h.indexed id b' hlive, Function.update_eq_self]
  have hdefinition : (c.overwrite id a).definition? =
      Function.update c.definition? id (some a) := by
    funext i
    rw [definition?_overwrite]
    by_cases hi : i = id
    · simp [hi, hb]
    · simp [hi]
  -- every record keeps its name
  have hnames : ∀ {i d}, c.definition? i = some d →
      ∃ d', (c.overwrite id a).definition? i = some d' ∧ name d' = name d := by
    intro i d hd
    rw [hdefinition]
    by_cases hi : i = id
    · subst hi
      obtain rfl := Option.some.inj (hd.symm.trans hb)
      exact ⟨a, Function.update_self .., hname.symm⟩
    · exact ⟨d, by rwa [Function.update_of_ne hi], rfl⟩
  rw [hindex]
  refine h.update hdefinition ?_ ?_ ?_ ?_ ?_
  · funext i
    rw [live?_overwrite]
    by_cases hi : i = id
    · simp [hi, hlive]
    · simp [hi]
  · refine h.increasing.imp ?_
    rintro i j ⟨d, e, hd, he, hlt⟩
    obtain ⟨d', hd', hdn⟩ := hnames hd
    obtain ⟨e', he', hen⟩ := hnames he
    exact ⟨d', e', hd', he', by rwa [hdn, hen]⟩
  · exact fun i => ⟨.inr, fun hi => hi.elim (fun heq => heq ▸ hid) fun hi => hi⟩
  · intro d hd
    obtain rfl := Option.some.inj (hd.symm.trans hb)
    exact hname
  · exact fun i d hd hdn => h.eq_of_name hlive hd (hdn.trans hname.symm)

/-- A new record updates the map at a name that the listing lacks. -/
lemma add (h : Represents name c index f) (hnone : c.holder? name (name a) = none) :
    Represents name (c.add (c.position name (name a)) a)
      (Function.update index (name a) (some (.record c.records.length)))
      (Function.update f (name a) (some a)) := by
  set p := c.position name (name a) with hp
  have hdefinition : (c.add p a).definition? =
      Function.update c.definition? c.records.length (some a) := by
    funext j
    rw [definition?_add, Function.update_apply]
  have hold : ∀ {j b}, c.definition? j = some b → (c.add p a).definition? j = some b := by
    intro j b hb
    rwa [hdefinition, Function.update_of_ne (ne_of_definition? hb)]
  have hnew : ∀ {j b}, j ∈ c.order → c.definition? j = some b → name b ≠ name a := by
    intro j b hj hb hname
    have hheld := (holder?_eq_some_iff (fun _ => h.valid) h.increasing).2 ⟨hj, hb, hname⟩
    rw [hnone] at hheld
    cases hheld
  obtain ⟨front, back, horder, hpos, hfront, hback⟩ :=
    exists_split (fun _ => h.valid) h.increasing (name a)
  have horder' : (c.add p a).order = front ++ c.records.length :: back := by
    show c.order.insertIdx p c.records.length = _
    rw [horder, hp, hpos, insertIdx_length]
  refine h.update hdefinition ?_ ?_ ?_ ?_ ?_
  · funext j
    rw [live?_add, Function.update_apply]
  · have hinc := h.increasing.imp (S := (c.add p a).Before name) fun {i j} hij => by
      obtain ⟨d, e, hd, he, hlt⟩ := hij
      exact ⟨d, e, hold hd, hold he, hlt⟩
    rw [horder, List.pairwise_append] at hinc
    have ha : (c.add p a).definition? c.records.length = some a := by simp [hdefinition]
    rw [horder', List.pairwise_append, List.pairwise_cons]
    refine ⟨hinc.1, ⟨?_, hinc.2.1⟩, fun i hi => List.forall_mem_cons.2 ⟨?_, hinc.2.2 i hi⟩⟩
    · intro j hj
      obtain ⟨b, hb, hge⟩ := hback j hj
      have hne := hnew (horder ▸ List.mem_append_right front hj) hb
      exact ⟨a, b, ha, hold hb, Bytes.lt_of_not_lt hge hne.symm⟩
    · obtain ⟨b, hb, hlt⟩ := hfront i hi
      exact ⟨b, a, hold hb, ha, hlt⟩
  · intro i
    simp only [horder', horder, List.mem_append, List.mem_cons]
    tauto
  · intro b hb
    exact absurd rfl (ne_of_definition? hb)
  · intro j b hb hname
    exact absurd hname (hnew ((h.mem_order j).2 ⟨b, hb⟩) (definition?_of_live? hb))

/-- Filing a definition updates the map at its name. -/
lemma file {registry registry' : Registry Mark} {domain : Bytes} {c' : Catalogue α}
    (h : Represents name c (registry.find? domain) f)
    (hfile : c.file? name registry domain a = some (c', registry')) :
    Represents name c' (registry'.find? domain) (Function.update f (name a) (some a)) := by
  rw [file?] at hfile
  split at hfile
  · rename_i id b hheld
    obtain ⟨rfl, rfl⟩ := Prod.mk.inj (Option.some.inj hfile)
    obtain ⟨hid, hb, hname⟩ := (holder?_eq_some_iff (fun _ => h.valid) h.increasing).1 hheld
    exact h.overwrite hid hb hname
  · rename_i hnone
    obtain ⟨r, hadd, hfile⟩ := Option.map_eq_some_iff.1 hfile
    obtain ⟨rfl, rfl⟩ := Prod.mk.inj hfile
    have hindex : r.find? domain = Function.update (registry.find? domain) (name a)
        (some (.record c.records.length)) := by
      funext n
      simp [Registry.find?_add? hadd, Function.update_apply]
    rw [hindex]
    exact h.add hnone

/-- A cleared catalogue stands for the empty map, whatever the index still holds. -/
lemma clear (h : Represents name c index f) : Represents name c.clear index fun _ => none where
  increasing := List.Pairwise.nil
  mem_order id := by
    rw [live?_clear]
    split_ifs with hid
    · simp [Catalogue.clear]
    · simpa [Catalogue.clear] using fun a ha => hid ((h.mem_order id).2 ⟨a, ha⟩)
  indexed id a ha := by
    rw [live?_clear] at ha
    split_ifs at ha with hid
    exact absurd ((h.mem_order id).2 ⟨a, ha⟩) hid
  owned n id hid := by
    rw [definition?_clear]
    exact h.owned n id hid
  map_eq n a := by
    refine ⟨nofun, ?_⟩
    rintro ⟨-, id, ha⟩
    rw [live?_clear] at ha
    split_ifs at ha with hid
    exact absurd ((h.mem_order id).2 ⟨a, ha⟩) hid

lemma empty : Represents name {} (fun _ => none) fun _ => none where
  increasing := List.Pairwise.nil
  mem_order := by simp [live?]
  indexed := by simp [live?]
  owned := by simp
  map_eq := by simp [live?]

end Represents

end Catalogue

end ConsoleShell
