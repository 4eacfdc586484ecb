/-
Values read by the grammar.

The reader takes exactly the texts of values from the front of a byte string.  What it has taken
is a text of the value that it gives, and a text of a value is taken as a whole, whatever follows
it; behind a number this must not be a byte that the number could go on with.
-/
import ConsoleShell.Proofs.Json.Grammar

namespace ConsoleShell

namespace Json

/-! ### Reading values -/

lemma Spaced.blank_append {P : Bytes → Prop} {a s : Bytes} (ha : Blank a) (h : Spaced P s) :
    Spaced P (a ++ s) := by
  obtain ⟨a', t, b, rfl, ha', ht, hb⟩ := h
  exact ⟨a ++ a', t, b, by simp only [List.append_assoc], ha.append ha', ht, hb⟩

lemma FieldText.blank_append {k a s : Bytes} {P : Bytes → Prop} (ha : Blank a)
    (h : FieldText k P s) : FieldText k P (a ++ s) := by
  obtain ⟨x, y, rfl, hx, hy⟩ := h
  exact ⟨a ++ x, y, by simp only [List.append_assoc], hx.blank_append ha, hy⟩

lemma ItemsText.blank_append {a s : Bytes} (ha : Blank a) :
    ∀ {xs : List Json}, ItemsText xs s → ItemsText xs (a ++ s)
  | [], h => ha.append h
  | [_], h => Spaced.blank_append ha h
  | _ :: _ :: _, ⟨x, y, hs, hx, hy⟩ =>
    ⟨a ++ x, y, by rw [hs, List.append_assoc], hx.blank_append ha, hy⟩

lemma FieldsText.blank_append {a s : Bytes} (ha : Blank a) :
    ∀ {fs : List (Bytes × Json)}, FieldsText fs s → FieldsText fs (a ++ s)
  | [], h => ha.append h
  | [(_, _)], h => FieldText.blank_append ha h
  | (_, _) :: _ :: _, ⟨x, y, hs, hx, hy⟩ =>
    ⟨a ++ x, y, by rw [hs, List.append_assoc], hx.blank_append ha, hy⟩

lemma exists_word {w s r : Bytes} {v v' : Json} (h : word? w v s = some (v', r)) :
    s = w ++ r ∧ v' = v := by
  rw [word?] at h
  split_ifs at h with hstarts
  obtain ⟨rfl, rfl⟩ := Prod.mk.inj (Option.some.inj h)
  obtain ⟨r, rfl⟩ := List.isPrefixOf_iff_prefix.1 hstarts
  rw [List.drop_left]
  exact ⟨rfl, rfl⟩

section

variable {fuel : Nat} {s r : Bytes}

lemma exists_text_of_value {v : Json}
    (hitems : ∀ s r xs, items? fuel s = some (xs, r) → ∃ t, s = t ++ 93 :: r ∧ ItemsText xs t)
    (hfields : ∀ s r fs, fields? fuel s = some (fs, r) → ∃ t, s = t ++ 125 :: r ∧ FieldsText fs t)
    (h : value? (fuel + 1) s = some (v, r)) : ∃ t, s = t ++ r ∧ v.HasText t := by
  cases s with
  | nil => cases h
  | cons c s =>
    rw [value?] at h
    split_ifs at h with hobject harray hstring htrue hfalse hnull
    · obtain rfl := beq_iff_eq.1 hobject
      obtain ⟨a, ha, hs⟩ := exists_blank_append s
      split at h
      · rename_i rest hskip
        obtain ⟨rfl, rfl⟩ := Prod.mk.inj (Option.some.inj h)
        exact ⟨123 :: a ++ [125], by rw [hs, hskip]; simp, a, rfl, ha⟩
      · obtain ⟨⟨fs, r'⟩, hfs, heq⟩ := Option.map_eq_some_iff.1 h
        obtain ⟨rfl, rfl⟩ := Prod.mk.inj heq
        obtain ⟨t, ht, htext⟩ := hfields _ _ _ hfs
        exact ⟨123 :: (a ++ t) ++ [125], by rw [hs, ht]; simp, a ++ t, rfl, htext.blank_append ha⟩
    · obtain rfl := beq_iff_eq.1 harray
      obtain ⟨a, ha, hs⟩ := exists_blank_append s
      split at h
      · rename_i rest hskip
        obtain ⟨rfl, rfl⟩ := Prod.mk.inj (Option.some.inj h)
        exact ⟨91 :: a ++ [93], by rw [hs, hskip]; simp, a, rfl, ha⟩
      · obtain ⟨⟨xs, r'⟩, hxs, heq⟩ := Option.map_eq_some_iff.1 h
        obtain ⟨rfl, rfl⟩ := Prod.mk.inj heq
        obtain ⟨t, ht, htext⟩ := hitems _ _ _ hxs
        exact ⟨91 :: (a ++ t) ++ [93], by rw [hs, ht]; simp, a ++ t, rfl, htext.blank_append ha⟩
    · obtain ⟨⟨k, r'⟩, hk, heq⟩ := Option.map_eq_some_iff.1 h
      obtain ⟨rfl, rfl⟩ := Prod.mk.inj heq
      exact exists_stringText hk
    · obtain ⟨hs, rfl⟩ := exists_word h
      exact ⟨_, hs, rfl⟩
    · obtain ⟨hs, rfl⟩ := exists_word h
      exact ⟨_, hs, rfl⟩
    · obtain ⟨hs, rfl⟩ := exists_word h
      exact ⟨_, hs, rfl⟩
    · obtain ⟨⟨n, r'⟩, hn, heq⟩ := Option.map_eq_some_iff.1 h
      obtain ⟨rfl, rfl⟩ := Prod.mk.inj heq
      obtain ⟨hs, hnumber⟩ := exists_number hn
      exact ⟨n, hs, rfl, hnumber⟩

lemma exists_text_of_items {xs : List Json}
    (hvalue : ∀ s r v, value? fuel s = some (v, r) → ∃ t, s = t ++ r ∧ v.HasText t)
    (hitems : ∀ s r xs, items? fuel s = some (xs, r) →
      xs ≠ [] ∧ ∃ t, s = t ++ 93 :: r ∧ ItemsText xs t)
    (h : items? (fuel + 1) s = some (xs, r)) :
    xs ≠ [] ∧ ∃ t, s = t ++ 93 :: r ∧ ItemsText xs t := by
  rw [items?] at h
  split at h
  · cases h
  · rename_i x r₁ hx
    obtain ⟨t, rfl, ht⟩ := hvalue _ _ _ hx
    obtain ⟨b, hb, hr⟩ := exists_blank_append r₁
    have hspaced : Spaced x.HasText (t ++ b) := ⟨[], t, b, by simp, blank_nil, ht, hb⟩
    split at h
    · rename_i u hskip
      obtain ⟨⟨ys, r'⟩, hys, heq⟩ := Option.map_eq_some_iff.1 h
      obtain ⟨rfl, rfl⟩ := Prod.mk.inj heq
      obtain ⟨a, ha, hu⟩ := exists_blank_append u
      obtain ⟨hne, w, hw, htext⟩ := hitems _ _ _ hys
      obtain ⟨y, ys, rfl⟩ := List.exists_cons_of_ne_nil hne
      refine ⟨List.cons_ne_nil _ _, t ++ b ++ 44 :: (a ++ w), ?_, t ++ b, a ++ w, rfl, hspaced,
        htext.blank_append ha⟩
      rw [hr, hskip, hu, hw]
      simp
    · rename_i rest hskip
      obtain ⟨rfl, rfl⟩ := Prod.mk.inj (Option.some.inj h)
      refine ⟨List.cons_ne_nil _ _, t ++ b, ?_, hspaced⟩
      rw [hr, hskip]
      simp
    · cases h

lemma exists_text_of_fields {fs : List (Bytes × Json)}
    (hvalue : ∀ s r v, value? fuel s = some (v, r) → ∃ t, s = t ++ r ∧ v.HasText t)
    (hfields : ∀ s r fs, fields? fuel s = some (fs, r) →
      fs ≠ [] ∧ ∃ t, s = t ++ 125 :: r ∧ FieldsText fs t)
    (h : fields? (fuel + 1) s = some (fs, r)) :
    fs ≠ [] ∧ ∃ t, s = t ++ 125 :: r ∧ FieldsText fs t := by
  rw [fields?] at h
  split at h
  · cases h
  rename_i k r₁ hk
  split at h
  · rename_i u hcolon
    split at h
    · cases h
    rename_i v r₂ hv
    obtain ⟨kt, rfl, hkt⟩ := exists_stringText hk
    obtain ⟨kb, hkb, hr₁⟩ := exists_blank_append r₁
    obtain ⟨a, ha, hu⟩ := exists_blank_append u
    obtain ⟨t, ht, htext⟩ := hvalue _ _ _ hv
    obtain ⟨b, hb, hr₂⟩ := exists_blank_append r₂
    have hfield : FieldText k v.HasText (kt ++ kb ++ 58 :: (a ++ t ++ b)) :=
      ⟨kt ++ kb, a ++ t ++ b, rfl, ⟨[], kt, kb, by simp, blank_nil, hkt, hkb⟩,
        a, t, b, rfl, ha, htext, hb⟩
    split at h
    · rename_i w hskip
      obtain ⟨⟨gs, r'⟩, hgs, heq⟩ := Option.map_eq_some_iff.1 h
      obtain ⟨rfl, rfl⟩ := Prod.mk.inj heq
      obtain ⟨a', ha', hw⟩ := exists_blank_append w
      obtain ⟨hne, x, hx, hrest⟩ := hfields _ _ _ hgs
      obtain ⟨g, gs, rfl⟩ := List.exists_cons_of_ne_nil hne
      refine ⟨List.cons_ne_nil _ _, kt ++ kb ++ 58 :: (a ++ t ++ b) ++ 44 :: (a' ++ x), ?_, _, _,
        rfl, hfield, hrest.blank_append ha'⟩
      rw [hr₁, hcolon, hu, ht, hr₂, hskip, hw, hx]
      simp
    · rename_i rest hskip
      obtain ⟨rfl, rfl⟩ := Prod.mk.inj (Option.some.inj h)
      refine ⟨List.cons_ne_nil _ _, _, ?_, hfield⟩
      rw [hr₁, hcolon, hu, ht, hr₂, hskip]
      simp
    · cases h
  · cases h

end

/-- What is read is a text of the value, of the items or of the fields that it is read as. -/
lemma exists_text (fuel : Nat) :
    (∀ s r v, value? fuel s = some (v, r) → ∃ t, s = t ++ r ∧ v.HasText t) ∧
      (∀ s r xs, items? fuel s = some (xs, r) →
        xs ≠ [] ∧ ∃ t, s = t ++ 93 :: r ∧ ItemsText xs t) ∧
      ∀ s r fs, fields? fuel s = some (fs, r) →
        fs ≠ [] ∧ ∃ t, s = t ++ 125 :: r ∧ FieldsText fs t := by
  induction fuel with
  | zero => exact ⟨nofun, nofun, nofun⟩
  | succ fuel ih =>
    obtain ⟨hvalue, hitems, hfields⟩ := ih
    exact ⟨fun s r v => exists_text_of_value (fun s r xs h => (hitems s r xs h).2)
        (fun s r fs h => (hfields s r fs h).2),
      fun s r xs => exists_text_of_items hvalue hitems,
      fun s r fs => exists_text_of_fields hvalue hfields⟩

/-! ### A value in front of a text -/

/-- A value begins with a byte that is neither a blank nor the end of a list. -/
lemma HasText.exists_cons {v : Json} {t : Bytes} (h : v.HasText t) :
    ∃ c r, t = c :: r ∧ isBlank c = false ∧ c ≠ 93 ∧ c ≠ 125 := by
  cases v with
  | null => exact ⟨_, _, h, rfl, by decide, by decide⟩
  | bool b => cases b <;> exact ⟨_, _, h, rfl, by decide, by decide⟩
  | number n =>
    obtain ⟨rfl, hn⟩ := h
    obtain ⟨c, r, hcons, hc⟩ := hn.exists_cons
    refine ⟨c, r, hcons, ?_⟩
    rcases hc with hc | rfl
    · have hne {x : UInt8} (hx : Ascii.isDigit x = false) := Ascii.beq_of_isDigit hc hx
      refine ⟨?_, ne_of_beq_false (hne rfl), ne_of_beq_false (hne rfl)⟩
      rw [isBlank, hne rfl, hne rfl, hne rfl, hne rfl]
      rfl
    · decide
  | string s =>
    obtain ⟨body, raw, rfl, -⟩ := h
    exact ⟨34, _, rfl, rfl, by decide, by decide⟩
  | array xs =>
    obtain ⟨u, rfl, -⟩ := h
    exact ⟨91, _, rfl, rfl, by decide, by decide⟩
  | object fs =>
    obtain ⟨u, rfl, -⟩ := h
    exact ⟨123, _, rfl, rfl, by decide, by decide⟩

lemma HasText.exists_visible {v : Json} {t : Bytes} (h : v.HasText t) :
    ∃ c r, t = c :: r ∧ isBlank c = false := by
  obtain ⟨c, r, hcons, hc, -, -⟩ := h.exists_cons
  exact ⟨c, r, hcons, hc⟩

lemma StringText.exists_cons {k t : Bytes} (h : StringText k t) :
    ∃ c r, t = c :: r ∧ isBlank c = false := by
  obtain ⟨body, raw, rfl, -⟩ := h
  exact ⟨34, _, rfl, rfl⟩

lemma stops_of_blank {b : Bytes} (hb : Blank b) {c : UInt8} (hc : c ∈ [44, 93, 125]) (s : Bytes) :
    Stops (b ++ c :: s) := by
  intro x hx
  cases b with
  | nil =>
    obtain rfl : c = x := Option.some.inj hx
    fin_cases hc <;> decide
  | cons y b =>
    obtain rfl : y = x := Option.some.inj hx
    have hy : isBlank y = true := hb y List.mem_cons_self
    rw [isBlank] at hy
    rcases (by simpa [or_assoc] using hy : y = 32 ∨ y = 9 ∨ y = 10 ∨ y = 13) with
      rfl | rfl | rfl | rfl <;> decide

/-- Blanks in front of a text are skipped, and those behind it are left. -/
lemma Spaced.skipBlanks {P : Bytes → Prop} {u : Bytes} (h : Spaced P u)
    (hP : ∀ t, P t → ∃ c r, t = c :: r ∧ isBlank c = false) (s : Bytes) :
    ∃ t b, skipBlanks (u ++ s) = t ++ (b ++ s) ∧ P t ∧ Blank b ∧ t.length ≤ u.length := by
  obtain ⟨a, t, b, rfl, ha, ht, hb⟩ := h
  obtain ⟨c, r, rfl, hc⟩ := hP t ht
  refine ⟨c :: r, b, ?_, ht, hb, by simp; omega⟩
  rw [List.append_assoc, List.append_assoc, skipBlanks_append ha, List.cons_append,
    skipBlanks_cons hc]

lemma word?_append (w : Bytes) (v : Json) (s : Bytes) : word? w v (w ++ s) = some (v, s) := by
  have hstarts : Bytes.startsWith (w ++ s) w = true :=
    List.isPrefixOf_iff_prefix.2 (List.prefix_append w s)
  rw [word?, if_pos hstarts, List.drop_left]

lemma value?_number {n : Bytes} (hn : IsNumber n) {s : Bytes} (hs : Stops s) (fuel : Nat) :
    value? (fuel + 1) (n ++ s) = some (.number n, s) := by
  obtain ⟨c, r, hcons, hc⟩ := hn.exists_cons
  have hnumber := hn.number? hs
  rw [hcons, List.cons_append] at hnumber ⊢
  have hne {x : UInt8} (hdigit : Ascii.isDigit x = false) (hx : (Ascii.minus == x) = false) :
      (c == x) = false := by
    rcases hc with hc | rfl
    · exact Ascii.beq_of_isDigit hc hdigit
    · exact hx
  rw [value?, hne rfl rfl, hne rfl rfl, hne rfl rfl, hne rfl rfl, hne rfl rfl, hne rfl rfl,
    hnumber]
  rfl

lemma value?_array {c : UInt8} {s r : Bytes} (hs : skipBlanks s = c :: r) (hne : c ≠ 93)
    (fuel : Nat) :
    value? (fuel + 1) (91 :: s) =
      (items? fuel (c :: r)).map fun (xs, rest) => (.array xs, rest) := by
  rw [value?]
  simp [hs, hne, Ascii.openBrace]

lemma value?_object {c : UInt8} {s r : Bytes} (hs : skipBlanks s = c :: r) (hne : c ≠ 125)
    (fuel : Nat) :
    value? (fuel + 1) (123 :: s) =
      (fields? fuel (c :: r)).map fun (fs, rest) => (.object fs, rest) := by
  rw [value?]
  simp [hs, hne]

/-- With the fuel, the value is read from the front of its texts that are shorter. -/
def Readable (fuel : Nat) (v : Json) : Prop :=
  ∀ t s, v.HasText t → t.length < fuel → (∀ n, v = .number n → Stops s) →
    value? fuel (t ++ s) = some (v, s)

/-- With the fuel, items are read from the front of their texts that are shorter. -/
def ItemsReadable (fuel : Nat) : Prop :=
  ∀ xs u s, xs ≠ [] → ItemsText xs u → u.length + 1 < fuel →
    items? fuel (skipBlanks (u ++ 93 :: s)) = some (xs, s)

/-- With the fuel, fields are read from the front of their texts that are shorter. -/
def FieldsReadable (fuel : Nat) : Prop :=
  ∀ fs u s, fs ≠ [] → FieldsText fs u → u.length + 1 < fuel →
    fields? fuel (skipBlanks (u ++ 125 :: s)) = some (fs, s)

variable {fuel : Nat} {u : Bytes} {c : UInt8}

/-- An item or the value of a field is read up to the comma or the bracket behind it. -/
lemma Readable.spaced {x : Json} (hx : Readable fuel x) (h : Spaced x.HasText u)
    (hfuel : u.length < fuel) (hc : c ∈ [44, 93, 125]) (s : Bytes) :
    ∃ r, value? fuel (skipBlanks (u ++ c :: s)) = some (x, r) ∧ skipBlanks r = c :: s := by
  obtain ⟨t, b, hskip, ht, hb, hlength⟩ := h.skipBlanks (fun _ => HasText.exists_visible) (c :: s)
  refine ⟨b ++ c :: s, ?_, ?_⟩
  · rw [hskip]
    exact hx t _ ht (by omega) fun _ _ => stops_of_blank hb hc s
  · rw [skipBlanks_append hb, skipBlanks_cons (by fin_cases hc <;> rfl)]

/-- A field is read up to the comma or the bracket behind it. -/
lemma Readable.field {k : Bytes} {v : Json} (hv : Readable fuel v) (h : FieldText k v.HasText u)
    (hfuel : u.length < fuel) (hc : c ∈ [44, 93, 125]) (s : Bytes) :
    ∃ r₁ w r₂, string? (skipBlanks (u ++ c :: s)) = some (k, r₁) ∧ skipBlanks r₁ = 58 :: w ∧
      value? fuel (skipBlanks w) = some (v, r₂) ∧ skipBlanks r₂ = c :: s := by
  obtain ⟨a, b, rfl, hkey, hvalue⟩ := h
  obtain ⟨t, kb, hskip, ht, hkb, -⟩ := hkey.skipBlanks (fun _ => StringText.exists_cons)
    (58 :: (b ++ c :: s))
  have hlength : b.length < fuel := by
    rw [List.length_append, List.length_cons] at hfuel
    omega
  obtain ⟨r, hread, hr⟩ := hv.spaced hvalue hlength hc s
  refine ⟨kb ++ 58 :: (b ++ c :: s), b ++ c :: s, r, ?_, ?_, hread, hr⟩
  · rw [List.append_assoc, List.cons_append, hskip]
    exact ht.string? _
  · rw [skipBlanks_append hkb, skipBlanks_cons rfl]

lemma exists_cons_of_spaced {x : Json} (h : Spaced x.HasText u) (s : Bytes) :
    ∃ c r, skipBlanks (u ++ s) = c :: r ∧ c ≠ 93 := by
  obtain ⟨t, b, hskip, ht, -, -⟩ := h.skipBlanks (fun _ => HasText.exists_visible) s
  obtain ⟨c, r, rfl, -, hne, -⟩ := ht.exists_cons
  exact ⟨c, _, hskip, hne⟩

lemma ItemsText.exists_cons {xs : List Json} (hne : xs ≠ []) (h : ItemsText xs u) (s : Bytes) :
    ∃ c r, skipBlanks (u ++ s) = c :: r ∧ c ≠ 93 := by
  match xs, h with
  | [x], h => exact exists_cons_of_spaced h s
  | x :: y :: xs, ⟨a, b, hu, ha, _⟩ =>
    rw [hu, List.append_assoc]
    exact exists_cons_of_spaced ha _

lemma FieldText.exists_cons {k : Bytes} {P : Bytes → Prop} (h : FieldText k P u) (s : Bytes) :
    ∃ c r, skipBlanks (u ++ s) = c :: r ∧ c ≠ 125 := by
  obtain ⟨a, b, rfl, ha, -⟩ := h
  obtain ⟨t, kb, hskip, ⟨body, raw, rfl, -⟩, -, -⟩ :=
    ha.skipBlanks (fun _ => StringText.exists_cons) (58 :: b ++ s)
  rw [List.append_assoc, hskip]
  exact ⟨34, _, rfl, by decide⟩

lemma FieldsText.exists_cons {fs : List (Bytes × Json)} (hne : fs ≠ []) (h : FieldsText fs u)
    (s : Bytes) : ∃ c r, skipBlanks (u ++ s) = c :: r ∧ c ≠ 125 := by
  match fs, h with
  | [(k, v)], h => exact FieldText.exists_cons h s
  | (k, v) :: f :: fs, ⟨a, b, hu, ha, _⟩ =>
    rw [hu, List.append_assoc]
    exact FieldText.exists_cons ha _

lemma readable_succ (hitems : ItemsReadable fuel) (hfields : FieldsReadable fuel) (v : Json) :
    Readable (fuel + 1) v := by
  intro t s ht hfuel hstops
  cases v with
  | null => rw [ht]; exact word?_append "null" .null s
  | bool b =>
    cases b with
    | true => rw [ht]; exact word?_append "true" (.bool true) s
    | false => rw [ht]; exact word?_append "false" (.bool false) s
  | number n =>
    obtain ⟨rfl, hn⟩ := ht
    exact value?_number hn (hstops _ rfl) fuel
  | string k =>
    have hread := congrArg (Option.map (Prod.map Json.string id)) (ht.string? s)
    obtain ⟨body, raw, rfl, -⟩ := ht
    exact hread
  | array xs =>
    obtain ⟨u, rfl, hu⟩ := ht
    have happend : 91 :: u ++ [93] ++ s = 91 :: (u ++ 93 :: s) := by simp
    rw [happend]
    by_cases hne : xs = []
    · subst hne
      have hskip : skipBlanks (u ++ 93 :: s) = 93 :: s := by
        rw [skipBlanks_append hu, skipBlanks_cons rfl]
      rw [value?]
      simp [hskip, Ascii.openBrace]
    · obtain ⟨c, r, hskip, hc⟩ := hu.exists_cons hne (93 :: s)
      simp only [List.length_append, List.length_cons, List.length_nil] at hfuel
      rw [value?_array hskip hc, ← hskip, hitems xs u s hne hu (by omega)]
      rfl
  | object fs =>
    obtain ⟨u, rfl, hu⟩ := ht
    have happend : 123 :: u ++ [125] ++ s = 123 :: (u ++ 125 :: s) := by simp
    rw [happend]
    by_cases hne : fs = []
    · subst hne
      have hskip : skipBlanks (u ++ 125 :: s) = 125 :: s := by
        rw [skipBlanks_append hu, skipBlanks_cons rfl]
      rw [value?]
      simp [hskip]
    · obtain ⟨c, r, hskip, hc⟩ := hu.exists_cons hne (125 :: s)
      simp only [List.length_append, List.length_cons, List.length_nil] at hfuel
      rw [value?_object hskip hc, ← hskip, hfields fs u s hne hu (by omega)]
      rfl

lemma itemsReadable_succ (hvalue : ∀ v, Readable fuel v) (hitems : ItemsReadable fuel) :
    ItemsReadable (fuel + 1) := by
  intro xs u s hne hu hfuel
  match xs, hu with
  | [x], hu =>
    obtain ⟨r, hread, hr⟩ := (hvalue x).spaced hu (by omega) (c := 93) (by simp) s
    rw [items?, hread]
    simp [hr]
  | x :: y :: xs, ⟨a, b, hu, ha, hb⟩ =>
    have hlength := congrArg List.length hu
    rw [List.length_append, List.length_cons] at hlength
    obtain ⟨r, hread, hr⟩ := (hvalue x).spaced ha (by omega) (c := 44) (by simp) (b ++ 93 :: s)
    have hrest := hitems (y :: xs) b s (List.cons_ne_nil _ _) hb (by omega)
    rw [hu, List.append_assoc, List.cons_append, items?, hread]
    simp [hr, hrest]

lemma fieldsReadable_succ (hvalue : ∀ v, Readable fuel v) (hfields : FieldsReadable fuel) :
    FieldsReadable (fuel + 1) := by
  intro fs u s hne hu hfuel
  match fs, hu with
  | [(k, v)], hu =>
    obtain ⟨r₁, w, r₂, hk, hcolon, hread, hr⟩ :=
      (hvalue v).field hu (by omega) (c := 125) (by simp) s
    rw [fields?, hk]
    simp [hcolon, hread, hr]
  | (k, v) :: f :: fs, ⟨a, b, hu, ha, hb⟩ =>
    have hlength := congrArg List.length hu
    rw [List.length_append, List.length_cons] at hlength
    obtain ⟨r₁, w, r₂, hk, hcolon, hread, hr⟩ :=
      (hvalue v).field ha (by omega) (c := 44) (by simp) (b ++ 125 :: s)
    have hrest := hfields (f :: fs) b s (List.cons_ne_nil _ _) hb (by omega)
    rw [hu, List.append_assoc, List.cons_append, fields?, hk]
    simp [hcolon, hread, hr, hrest]

/-- Values, items and fields are read from the front of their texts. -/
lemma readable_all (fuel : Nat) :
    (∀ v, Readable fuel v) ∧ ItemsReadable fuel ∧ FieldsReadable fuel := by
  induction fuel with
  | zero =>
    exact ⟨fun _ _ _ _ hfuel => absurd hfuel (Nat.not_lt_zero _),
      fun _ _ _ _ _ hfuel => absurd hfuel (Nat.not_lt_zero _),
      fun _ _ _ _ _ hfuel => absurd hfuel (Nat.not_lt_zero _)⟩
  | succ fuel ih =>
    obtain ⟨hvalue, hitems, hfields⟩ := ih
    exact ⟨readable_succ hitems hfields, itemsReadable_succ hvalue hitems,
      fieldsReadable_succ hvalue hfields⟩

/-- A value is read from the front of a text of it. -/
theorem HasText.value? {v : Json} {t : Bytes} (h : v.HasText t) {fuel : Nat}
    (hfuel : t.length < fuel) {s : Bytes} (hs : ∀ n, v = .number n → Stops s) :
    value? fuel (t ++ s) = some (v, s) :=
  (readable_all fuel).1 v t s h hfuel hs

/-! ### The next value -/

lemma exists_text_of_next? {s r : Bytes} {v : Json} (h : next? s = some (v, r)) :
    (∃ a t, s = a ++ t ++ r ∧ Blank a ∧ v.HasText t) ∧ v.depth ≤ maxDepth := by
  obtain ⟨hread, hdepth⟩ := Option.filter_eq_some_iff.1 h
  obtain ⟨a, ha, hs⟩ := exists_blank_append s
  obtain ⟨t, ht, htext⟩ := (exists_text _).1 _ _ _ hread
  refine ⟨⟨a, t, ?_, ha, htext⟩, by simpa using hdepth⟩
  rw [List.append_assoc, ← ht]
  exact hs

lemma HasText.skipBlanks {v : Json} {a t : Bytes} (ha : Blank a) (h : v.HasText t) (s : Bytes) :
    skipBlanks (a ++ t ++ s) = t ++ s := by
  obtain ⟨c, r, rfl, hc⟩ := h.exists_visible
  rw [List.append_assoc, skipBlanks_append ha, List.cons_append, skipBlanks_cons hc]

lemma HasText.next? {v : Json} {t : Bytes} (h : v.HasText t) (hdepth : v.depth ≤ maxDepth)
    {a : Bytes} (ha : Blank a) {s : Bytes} (hs : ∀ n, v = .number n → Stops s) :
    next? (a ++ t ++ s) = some (v, s) := by
  have hread : Json.value? (2 * (a ++ t ++ s).length + 2) (t ++ s) = some (v, s) :=
    h.value? (by simp only [List.length_append]; omega) hs
  rw [Json.next?, h.skipBlanks ha, hread]
  simp [hdepth]

/-- A text begins with one value only, which ends at one place only. -/
lemma HasText.unique {v w : Json} {a b t u s r : Bytes} (ha : Blank a) (hb : Blank b)
    (ht : v.HasText t) (hu : w.HasText u) (hs : ∀ n, v = .number n → Stops s)
    (hr : ∀ n, w = .number n → Stops r) (heq : a ++ t ++ s = b ++ u ++ r) : v = w ∧ s = r := by
  have hskip : t ++ s = u ++ r := by rw [← ht.skipBlanks ha, heq, hu.skipBlanks hb]
  have hleft : Json.value? (t.length + u.length + 1) (t ++ s) = some (v, s) :=
    ht.value? (by omega) hs
  have hright : Json.value? (t.length + u.length + 1) (u ++ r) = some (w, r) :=
    hu.value? (by omega) hr
  rw [hskip, hright] at hleft
  obtain ⟨hv, hs⟩ := Prod.mk.inj (Option.some.inj hleft)
  exact ⟨hv.symm, hs.symm⟩

end Json

end ConsoleShell
