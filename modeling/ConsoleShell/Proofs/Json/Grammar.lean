/-
The grammar of JSON.

The texts of a value are those that the grammar of JSON has for it: any of the escapes in a
string, any number as it is written, and blanks around the items and fields.  The reader takes
exactly the texts of strings from the front of a byte string and exactly those of numbers, where
behind a number there must not be a byte that it could go on with.
-/
import ConsoleShell.Json.Reader
import ConsoleShell.Proofs.Number.Rendering

namespace ConsoleShell

namespace Json

/-! ### Blanks -/

/-- The text has nothing but blanks. -/
def Blank (s : Bytes) : Prop := ∀ c ∈ s, isBlank c = true

instance : DecidablePred Blank := fun s =>
  inferInstanceAs (Decidable (∀ c ∈ s, isBlank c = true))

/-- A text with blanks around it. -/
def Spaced (P : Bytes → Prop) (s : Bytes) : Prop :=
  ∃ a t b, s = a ++ t ++ b ∧ Blank a ∧ P t ∧ Blank b

lemma blank_nil : Blank [] := nofun

lemma Blank.append {a b : Bytes} (ha : Blank a) (hb : Blank b) : Blank (a ++ b) :=
  List.forall_mem_append.2 ⟨ha, hb⟩

lemma spaced_of {P : Bytes → Prop} {s : Bytes} (h : P s) : Spaced P s :=
  ⟨[], s, [], by simp, blank_nil, h, blank_nil⟩

lemma skipBlanks_append {a : Bytes} (h : Blank a) (s : Bytes) :
    skipBlanks (a ++ s) = skipBlanks s :=
  List.dropWhile_append_of_pos h

lemma skipBlanks_cons {c : UInt8} (h : isBlank c = false) (s : Bytes) :
    skipBlanks (c :: s) = c :: s :=
  List.dropWhile_cons_of_neg (by simp [h])

lemma skipBlanks_of_blank {s : Bytes} (h : Blank s) : skipBlanks s = [] :=
  List.dropWhile_eq_nil_iff.2 h

/-- A text is blanks and what is left without them. -/
lemma exists_blank_append (s : Bytes) : ∃ a, Blank a ∧ s = a ++ skipBlanks s :=
  ⟨s.takeWhile isBlank, fun _ hc => List.mem_takeWhile_imp hc, List.takeWhile_append_dropWhile.symm⟩

/-! ### Strings -/

/-- A byte that stands for itself in a string. -/
def IsPlain (c : UInt8) : Prop := 32 ≤ c.toNat ∧ c ≠ 34 ∧ c ≠ 92

/-- A unit that is half of a character. -/
def IsSurrogate (n : Nat) : Prop := 0xD800 ≤ n ∧ n ≤ 0xDFFF

/-- A unit that is the first half of a character. -/
def IsHigh (n : Nat) : Prop := 0xD800 ≤ n ∧ n < 0xDC00

/-- A unit that is the second half of a character. -/
def IsLow (n : Nat) : Prop := 0xDC00 ≤ n ∧ n ≤ 0xDFFF

/-- The character of two halves. -/
def pairChar (high low : Nat) : Char :=
  Char.ofNat (0x10000 + (high - 0xD800) * 1024 + (low - 0xDC00))

/-- The unit that is escaped at the front of a text. -/
def escapedUnit? : Bytes → Option Nat
  | 92 :: 117 :: a :: b :: c :: d :: _ => hex4? a b c d
  | _ => none

/-- What stands between the quotes of a string, and the bytes that it stands for. -/
inductive StringBody : Bytes → Bytes → Prop
  | nil : StringBody [] []
  | plain {c : UInt8} {t u : Bytes} (hc : IsPlain c) (ht : StringBody t u) :
    StringBody (c :: t) (c :: u)
  | letter {l x : UInt8} {t u : Bytes} (hl : escapeLetter? l = some x) (ht : StringBody t u) :
    StringBody (92 :: l :: t) (x :: u)
  | unit {a b c d : UInt8} {n : Nat} {t u : Bytes} (hn : hex4? a b c d = some n)
    (hwhole : ¬ IsSurrogate n) (ht : StringBody t u) :
    StringBody (92 :: 117 :: a :: b :: c :: d :: t) (Utf8.encodeChar (Char.ofNat n) ++ u)
  | pair {a b c d e f g h : UInt8} {n m : Nat} {t u : Bytes} (hn : hex4? a b c d = some n)
    (hm : hex4? e f g h = some m) (hhigh : IsHigh n) (hlow : IsLow m) (ht : StringBody t u) :
    StringBody (92 :: 117 :: a :: b :: c :: d :: 92 :: 117 :: e :: f :: g :: h :: t)
      (Utf8.encodeChar (pairChar n m) ++ u)
  | lone {a b c d : UInt8} {n : Nat} {t u : Bytes} (hn : hex4? a b c d = some n)
    (hhalf : IsSurrogate n) (halone : IsHigh n → ∀ m, escapedUnit? t = some m → ¬ IsLow m)
    (ht : StringBody t u) :
    StringBody (92 :: 117 :: a :: b :: c :: d :: t) (Utf8.encodeChar Utf8.replacement ++ u)

/-- A string in quotes, stray bytes replaced. -/
def StringText (s t : Bytes) : Prop :=
  ∃ body raw, t = 34 :: body ++ [34] ∧ StringBody body raw ∧ s = Utf8.sanitize raw

/-! ### Numbers -/

/-- The text is digits, and there are some. -/
def IsDigits (s : Bytes) : Prop := s ≠ [] ∧ ∀ c ∈ s, Ascii.isDigit c = true

/-- The digits in front of the point, without a zero that is not needed. -/
def IsWhole (s : Bytes) : Prop := s = [48] ∨ IsDigits s ∧ s.head? ≠ some 48

/-- The point and the digits behind it, or nothing. -/
def IsFraction (s : Bytes) : Prop := s = [] ∨ ∃ ds, s = 46 :: ds ∧ IsDigits ds

/-- The exponent with its letter, or nothing. -/
def IsExponent (s : Bytes) : Prop :=
  s = [] ∨ ∃ e sign ds, s = e :: sign ++ ds ∧ (e = 101 ∨ e = 69) ∧
    (sign = [] ∨ sign = [Ascii.plus] ∨ sign = [Ascii.minus]) ∧ IsDigits ds

/-- The text is a number. -/
def IsNumber (s : Bytes) : Prop :=
  ∃ sign whole fraction exponent, s = sign ++ whole ++ fraction ++ exponent ∧
    (sign = [] ∨ sign = [Ascii.minus]) ∧ IsWhole whole ∧ IsFraction fraction ∧ IsExponent exponent

/-! ### Values -/

/-- A field, with a text for its value. -/
def FieldText (k : Bytes) (P : Bytes → Prop) (s : Bytes) : Prop :=
  ∃ a b, s = a ++ 58 :: b ∧ Spaced (StringText k) a ∧ Spaced P b

mutual

/-- The text is one of the value. -/
def HasText : Json → Bytes → Prop
  | .null, t => t = "null"
  | .bool true, t => t = "true"
  | .bool false, t => t = "false"
  | .number n, t => t = n ∧ IsNumber n
  | .string s, t => StringText s t
  | .array xs, t => ∃ u, t = 91 :: u ++ [93] ∧ ItemsText xs u
  | .object fs, t => ∃ u, t = 123 :: u ++ [125] ∧ FieldsText fs u

/-- The text has the items with commas between them. -/
def ItemsText : List Json → Bytes → Prop
  | [], s => Blank s
  | [x], s => Spaced x.HasText s
  | x :: y :: xs, s => ∃ a b, s = a ++ 44 :: b ∧ Spaced x.HasText a ∧ ItemsText (y :: xs) b

/-- The text has the fields with commas between them. -/
def FieldsText : List (Bytes × Json) → Bytes → Prop
  | [], s => Blank s
  | [(k, v)], s => FieldText k v.HasText s
  | (k, v) :: f :: fs, s =>
    ∃ a b, s = a ++ 44 :: b ∧ FieldText k v.HasText a ∧ FieldsText (f :: fs) b

end

/-! ### Reading strings -/

/-- Text in front of the rest of a string. -/
def prepend (t : Bytes) (tail : Option (Bytes × Bytes)) : Option (Bytes × Bytes) :=
  tail.map fun (u, rest) => (t ++ u, rest)

lemma prepend_eq_some_iff {t w r : Bytes} {tail : Option (Bytes × Bytes)} :
    prepend t tail = some (w, r) ↔ ∃ u, tail = some (u, r) ∧ w = t ++ u := by
  simp only [prepend, Option.map_eq_some_iff, Prod.mk.injEq]
  constructor
  · rintro ⟨⟨u, r'⟩, htail, rfl, rfl⟩
    exact ⟨u, htail, rfl⟩
  · rintro ⟨u, htail, rfl⟩
    exact ⟨(u, r), htail, rfl, rfl⟩

/-- What a unit stands for: a character of its own, a character together with the unit behind it,
or the replacement character. -/
lemma unitChar_cases (n : Nat) (next : Option Nat) :
    (¬ IsSurrogate n ∧ unitChar n next = (Char.ofNat n, false)) ∨
      (IsHigh n ∧ ∃ m, next = some m ∧ IsLow m ∧ unitChar n next = (pairChar n m, true)) ∨
      (IsSurrogate n ∧ (IsHigh n → ∀ m, next = some m → ¬ IsLow m) ∧
        unitChar n next = (Utf8.replacement, false)) := by
  unfold IsSurrogate IsHigh IsLow
  by_cases hhalf : 0xD800 ≤ n ∧ n ≤ 0xDFFF
  · refine .inr ?_
    have hnot : (decide (n < 0xD800) || decide (0xDFFF < n)) = false := by
      simp only [Bool.or_eq_false_iff, decide_eq_false_iff_not]
      omega
    cases next with
    | none => exact .inr ⟨hhalf, fun _ _ hm => (nomatch hm), by simp [unitChar, hnot]⟩
    | some m =>
      by_cases hpair : n < 0xDC00 ∧ 0xDC00 ≤ m ∧ m ≤ 0xDFFF
      · refine .inl ⟨⟨hhalf.1, hpair.1⟩, m, rfl, hpair.2, ?_⟩
        simp [unitChar, hnot, hpair, pairChar]
      · refine .inr ⟨hhalf, ?_, ?_⟩
        · rintro hhigh m' hm hlow
          obtain rfl := Option.some.inj hm
          exact hpair ⟨hhigh.2, hlow⟩
        · have hfalse :
              (decide (n < 0xDC00) && decide (0xDC00 ≤ m) && decide (m ≤ 0xDFFF)) = false := by
            simpa [and_assoc] using hpair
          simp [unitChar, hnot, hfalse]
  · refine .inl ⟨hhalf, ?_⟩
    have hwhole : (decide (n < 0xD800) || decide (0xDFFF < n)) = true := by
      simp only [Bool.or_eq_true, decide_eq_true_eq]
      omega
    simp [unitChar, hwhole]

lemma unitChar_none (n : Nat) : (unitChar n none).2 = false := by
  obtain ⟨-, heq⟩ | ⟨-, m, hm, -⟩ | ⟨-, -, heq⟩ := unitChar_cases n none
  · rw [heq]
  · cases hm
  · rw [heq]

lemma IsHigh.isSurrogate {n : Nat} (h : IsHigh n) : IsSurrogate n :=
  ⟨h.1, by have := h.2; omega⟩

lemma stringTail_cons {c : UInt8} (h : IsPlain c) (s : Bytes) :
    stringTail (c :: s) = prepend [c] (stringTail s) := by
  obtain ⟨hlow, hquote, hbackslash⟩ := h
  have hlt : ¬c < 32 := by
    rw [UInt8.lt_iff_toNat_lt]
    exact Nat.not_lt.2 hlow
  rw [stringTail.eq_def]
  split <;> simp_all [prepend]

lemma stringTail_letter {c x : UInt8} (h : escapeLetter? c = some x) (s : Bytes) :
    stringTail (92 :: c :: s) = prepend [x] (stringTail s) := by
  have hne : c ≠ 117 := by
    rintro rfl
    cases h
  rw [stringTail.eq_def]
  split
  case h_6 =>
    rename_i hletter heq
    cases heq
    exact (hletter _ _ rfl rfl).elim
  all_goals simp_all [prepend]

/-- An escaped unit together with what it may be half of. -/
lemma stringTail_escape {a b c d : UInt8} {n : Nat} (h : hex4? a b c d = some n) (s : Bytes) :
    stringTail (92 :: 117 :: a :: b :: c :: d :: s) =
      prepend (Utf8.encodeChar (unitChar n (escapedUnit? s)).1)
        (stringTail (if (unitChar n (escapedUnit? s)).2 then s.drop 6 else s)) := by
  rw [stringTail.eq_def]
  split
  case h_3 =>
    rename_i heq
    cases heq
    rw [h]
    simp only [escapedUnit?, List.drop_succ_cons, List.drop_zero]
    split_ifs <;> rfl
  case h_4 =>
    rename_i hnext heq
    cases heq
    have hnone : escapedUnit? s = none := by
      rw [escapedUnit?.eq_def]
      split
      · exact (hnext _ _ _ _ _ rfl).elim
      · rfl
    rw [h, hnone, unitChar_none]
    rfl
  case h_5 =>
    rename_i hescape heq
    cases heq
    exact (hescape _ _ _ _ _ rfl rfl).elim
  case h_6 =>
    rename_i hletter heq
    cases heq
    exact (hletter _ _ rfl rfl).elim
  all_goals simp at *

/-- What is escaped at the front of a string does not depend on what follows the string. -/
lemma StringBody.escapedUnit?_append {t u : Bytes} (h : StringBody t u) (s : Bytes) :
    escapedUnit? (t ++ 34 :: s) = escapedUnit? t := by
  cases h with
  | nil => rfl
  | @plain c t u hc ht =>
    have hne : c ≠ 92 := hc.2.2
    simp [escapedUnit?, hne]
  | @letter l x t u hl ht =>
    have hne : l ≠ 117 := by
      rintro rfl
      cases hl
    simp [escapedUnit?, hne]
  | unit hn hwhole ht => rfl
  | pair hn hm hhigh hlow ht => rfl
  | lone hn hhalf halone ht => rfl

/-- The bytes of a string are read up to the quote at its end. -/
lemma StringBody.stringTail {t u : Bytes} (h : StringBody t u) (s : Bytes) :
    stringTail (t ++ 34 :: s) = some (u, s) := by
  induction h with
  | nil => rw [List.nil_append, Json.stringTail]
  | plain hc ht ih => rw [List.cons_append, stringTail_cons hc, ih]; rfl
  | letter hl ht ih => rw [List.cons_append, List.cons_append, stringTail_letter hl, ih]; rfl
  | @unit a b c d n t u hn hwhole ht ih =>
    simp only [List.cons_append, stringTail_escape hn]
    obtain ⟨-, heq⟩ | ⟨hhigh, -⟩ | ⟨hhalf, -⟩ := unitChar_cases n (escapedUnit? (t ++ 34 :: s))
    · rw [heq, if_neg Bool.false_ne_true, ih]
      rfl
    · exact absurd hhigh.isSurrogate hwhole
    · exact absurd hhalf hwhole
  | @pair a b c d e f g h n m t u hn hm hhigh hlow ht ih =>
    have hnext : escapedUnit? (92 :: 117 :: e :: f :: g :: h :: (t ++ 34 :: s)) = some m := hm
    simp only [List.cons_append, stringTail_escape hn, hnext]
    obtain ⟨hwhole, -⟩ | ⟨-, m', hm', -, heq⟩ | ⟨-, halone, -⟩ := unitChar_cases n (some m)
    · exact absurd hhigh.isSurrogate hwhole
    · obtain rfl := Option.some.inj hm'
      rw [heq, if_pos rfl, List.drop_succ_cons, List.drop_succ_cons, List.drop_succ_cons,
        List.drop_succ_cons, List.drop_succ_cons, List.drop_succ_cons, List.drop_zero, ih, prepend,
        Option.map_some]
    · exact absurd hlow (halone hhigh m rfl)
  | @lone a b c d n t u hn hhalf halone ht ih =>
    simp only [List.cons_append, stringTail_escape hn, ht.escapedUnit?_append]
    obtain ⟨hwhole, -⟩ | ⟨hhigh, m, hnext, hlow, -⟩ | ⟨-, -, heq⟩ :=
      unitChar_cases n (escapedUnit? t)
    · exact absurd hhalf hwhole
    · exact absurd hlow (halone hhigh m hnext)
    · rw [heq, if_neg Bool.false_ne_true, ih]
      rfl

/-- An escaped unit that is read by itself. -/
lemma StringBody.escape {a b c d : UInt8} {n : Nat} {ch : Char} {t u : Bytes}
    (hn : hex4? a b c d = some n) (hch : unitChar n (escapedUnit? t) = (ch, false))
    (ht : StringBody t u) :
    StringBody (92 :: 117 :: a :: b :: c :: d :: t) (Utf8.encodeChar ch ++ u) := by
  obtain ⟨hwhole, heq⟩ | ⟨-, m, -, -, heq⟩ | ⟨hhalf, halone, heq⟩ :=
    unitChar_cases n (escapedUnit? t)
  · obtain ⟨rfl, -⟩ := Prod.mk.inj (heq.symm.trans hch)
    exact .unit hn hwhole ht
  · cases (Prod.mk.inj (heq.symm.trans hch)).2
  · obtain ⟨rfl, -⟩ := Prod.mk.inj (heq.symm.trans hch)
    exact .lone hn hhalf halone ht

/-- What is read as a string is one, up to the quote at its end. -/
lemma exists_stringBody {s u r : Bytes} (h : stringTail s = some (u, r)) :
    ∃ t, s = t ++ 34 :: r ∧ StringBody t u := by
  fun_induction Json.stringTail s generalizing u r with
  | case1 => cases h
  | case2 s =>
    obtain ⟨rfl, rfl⟩ := Prod.mk.inj (Option.some.inj h)
    exact ⟨[], rfl, .nil⟩
  | case3 => cases h
  | case4 a b c d e f g i s n hn ch hch ih =>
    -- two units that are halves of one character
    obtain ⟨u', htail, rfl⟩ := prepend_eq_some_iff.1 h
    obtain ⟨t, rfl, ht⟩ := ih htail
    obtain ⟨-, heq⟩ | ⟨hhigh, m, hm, hlow, heq⟩ | ⟨-, -, heq⟩ := unitChar_cases n (hex4? e f g i)
    · cases heq.symm.trans hch
    · obtain ⟨rfl, -⟩ := Prod.mk.inj (heq.symm.trans hch)
      exact ⟨_, rfl, .pair hn hm hhigh hlow ht⟩
    · cases heq.symm.trans hch
  | case5 a b c d e f g i s n hn ch used hch hused ih =>
    -- a unit in front of another one that is no half of the same character
    obtain ⟨u', htail, rfl⟩ := prepend_eq_some_iff.1 h
    obtain ⟨t, hs, ht⟩ := ih htail
    have hnext : hex4? e f g i = escapedUnit? t := by
      rw [← ht.escapedUnit?_append r, ← hs]
      rfl
    rw [hnext, Bool.eq_false_iff.2 hused] at hch
    exact ⟨92 :: 117 :: a :: b :: c :: d :: t, by rw [hs]; rfl, ht.escape hn hch⟩
  | case6 => cases h
  | case7 a b c d s hshape n hn ih =>
    obtain ⟨u', htail, rfl⟩ := prepend_eq_some_iff.1 h
    obtain ⟨t, rfl, ht⟩ := ih htail
    have hnext : escapedUnit? t = none := by
      rw [← ht.escapedUnit?_append r, escapedUnit?.eq_def]
      split
      · rename_i heq
        exact (hshape _ _ _ _ _ heq).elim
      · rfl
    refine ⟨92 :: 117 :: a :: b :: c :: d :: t, rfl, ht.escape hn ?_⟩
    rw [hnext]
    exact Prod.ext rfl (unitChar_none n)
  | case8 => cases h
  | case9 l s hlong hshort x hx ih =>
    obtain ⟨u', htail, rfl⟩ := (prepend_eq_some_iff (t := [x])).1 h
    obtain ⟨t, rfl, ht⟩ := ih htail
    exact ⟨92 :: l :: t, rfl, .letter hx ht⟩
  | case10 => cases h
  | case11 c s hquote hlong hshort hletter hplain ih =>
    obtain ⟨u', htail, rfl⟩ := (prepend_eq_some_iff (t := [c])).1 h
    obtain ⟨t, rfl, ht⟩ := ih htail
    simp only [Bool.or_eq_true, decide_eq_true_eq, beq_iff_eq, not_or, UInt8.lt_iff_toNat_lt,
      Nat.not_lt] at hplain
    exact ⟨c :: t, rfl, .plain ⟨hplain.1, hquote, hplain.2⟩ ht⟩

lemma StringText.string? {k t : Bytes} (h : StringText k t) (s : Bytes) :
    string? (t ++ s) = some (k, s) := by
  obtain ⟨body, raw, rfl, hbody, rfl⟩ := h
  rw [List.append_assoc, List.cons_append, List.singleton_append, Json.string?, hbody.stringTail]
  rfl

lemma exists_stringText {k s r : Bytes} (h : string? s = some (k, r)) :
    ∃ t, s = t ++ r ∧ StringText k t := by
  rw [string?.eq_def] at h
  split at h
  · rename_i s
    obtain ⟨⟨raw, r'⟩, htail, heq⟩ := Option.map_eq_some_iff.1 h
    obtain ⟨rfl, rfl⟩ := Prod.mk.inj heq
    obtain ⟨body, rfl, hbody⟩ := exists_stringBody htail
    exact ⟨34 :: body ++ [34], by simp, body, raw, rfl, hbody, rfl⟩
  · cases h

/-! ### Reading numbers -/

/-- A number that ends where the text begins has ended. -/
def Stops (s : Bytes) : Prop :=
  ∀ c ∈ s.head?, Ascii.isDigit c = false ∧ c ≠ 46 ∧ c ≠ 101 ∧ c ≠ 69

lemma stops_nil : Stops [] := nofun

lemma number?_eq_some_iff {s t r : Bytes} :
    number? s = some (t, r) ↔ ∃ w r₁ f r₂ e, whole? (sign s).2 = some (w, r₁) ∧
      fraction? r₁ = some (f, r₂) ∧ exponent? r₂ = some (e, r) ∧
        t = (sign s).1 ++ w ++ f ++ e := by
  simp only [number?, Option.bind_eq_bind, Option.bind_eq_some_iff, pure, Option.some.injEq,
    Prod.mk.injEq, Prod.exists]
  constructor
  · rintro ⟨w, r₁, hw, f, r₂, hf, e, r₃, he, rfl, rfl⟩
    exact ⟨w, r₁, f, r₂, e, hw, hf, he, rfl⟩
  · rintro ⟨w, r₁, f, r₂, e, hw, hf, he, rfl⟩
    exact ⟨w, r₁, hw, f, r₂, hf, e, r, he, rfl, rfl⟩

lemma digits_append {ds s : Bytes} (h : ∀ c ∈ ds, Ascii.isDigit c = true)
    (hs : ∀ c ∈ s.head?, Ascii.isDigit c = false) : digits (ds ++ s) = (ds, s) := by
  rw [digits, List.takeWhile_append_of_pos h, List.dropWhile_append_of_pos h]
  cases s with
  | nil => simp
  | cons c s =>
    have hc : Ascii.isDigit c = false := hs c rfl
    simp [hc]

lemma append_digits (s : Bytes) : (digits s).1 ++ (digits s).2 = s :=
  List.takeWhile_append_dropWhile

lemma isDigits_digits {s : Bytes} (h : (digits s).1.isEmpty = false) : IsDigits (digits s).1 :=
  ⟨by simpa using h, fun _ hc => List.mem_takeWhile_imp hc⟩

lemma exists_sign (s : Bytes) :
    s = (sign s).1 ++ (sign s).2 ∧ ((sign s).1 = [] ∨ (sign s).1 = [Ascii.minus]) := by
  rw [sign.eq_def]
  split
  · exact ⟨rfl, .inr rfl⟩
  · exact ⟨rfl, .inl rfl⟩

lemma exists_whole {s w r : Bytes} (h : whole? s = some (w, r)) : s = w ++ r ∧ IsWhole w := by
  rw [whole?.eq_def] at h
  split at h
  · obtain ⟨rfl, rfl⟩ := Prod.mk.inj (Option.some.inj h)
    exact ⟨rfl, .inl rfl⟩
  · rename_i hzero
    dsimp only at h
    split_ifs at h with hempty
    obtain ⟨rfl, rfl⟩ := Prod.mk.inj (Option.some.inj h)
    have happend := append_digits s
    refine ⟨happend.symm, .inr ⟨isDigits_digits (Bool.eq_false_iff.2 hempty), fun hhead => ?_⟩⟩
    obtain ⟨ds, hds⟩ := List.head?_eq_some_iff.1 hhead
    rw [hds] at happend
    exact hzero _ happend.symm

lemma exists_fraction {s f r : Bytes} (h : fraction? s = some (f, r)) :
    s = f ++ r ∧ IsFraction f := by
  rw [fraction?.eq_def] at h
  split at h
  · rename_i t
    dsimp only at h
    split_ifs at h with hempty
    obtain ⟨rfl, rfl⟩ := Prod.mk.inj (Option.some.inj h)
    exact ⟨by rw [List.cons_append, append_digits],
      .inr ⟨_, rfl, isDigits_digits (Bool.eq_false_iff.2 hempty)⟩⟩
  · obtain ⟨rfl, rfl⟩ := Prod.mk.inj (Option.some.inj h)
    exact ⟨rfl, .inl rfl⟩

lemma exists_exponentSign (s : Bytes) :
    s = (exponentSign s).1 ++ (exponentSign s).2 ∧ ((exponentSign s).1 = [] ∨
      (exponentSign s).1 = [Ascii.plus] ∨ (exponentSign s).1 = [Ascii.minus]) := by
  rw [exponentSign.eq_def]
  split
  · split_ifs with hc
    · rcases (by simpa using hc : _ = Ascii.plus ∨ _ = Ascii.minus) with rfl | rfl
      · exact ⟨rfl, .inr (.inl rfl)⟩
      · exact ⟨rfl, .inr (.inr rfl)⟩
    · exact ⟨rfl, .inl rfl⟩
  · exact ⟨rfl, .inl rfl⟩

lemma exists_exponent {s e r : Bytes} (h : exponent? s = some (e, r)) :
    s = e ++ r ∧ IsExponent e := by
  rw [exponent?.eq_def] at h
  split at h
  · rename_i c t
    split_ifs at h with hc
    · dsimp only at h
      split_ifs at h with hempty
      obtain ⟨rfl, rfl⟩ := Prod.mk.inj (Option.some.inj h)
      obtain ⟨ht, hsign⟩ := exists_exponentSign t
      have hletter : c = 101 ∨ c = 69 := by simpa using hc
      refine ⟨?_, .inr ⟨c, _, _, rfl, hletter, hsign,
        isDigits_digits (Bool.eq_false_iff.2 hempty)⟩⟩
      rw [List.cons_append, List.cons_append, List.append_assoc, append_digits, ← ht]
    · obtain ⟨rfl, rfl⟩ := Prod.mk.inj (Option.some.inj h)
      exact ⟨rfl, .inl rfl⟩
  · obtain ⟨rfl, rfl⟩ := Prod.mk.inj (Option.some.inj h)
    exact ⟨rfl, .inl rfl⟩

lemma exists_number {s t r : Bytes} (h : number? s = some (t, r)) : s = t ++ r ∧ IsNumber t := by
  obtain ⟨w, r₁, f, r₂, e, hw, hf, he, rfl⟩ := number?_eq_some_iff.1 h
  obtain ⟨hs, hsign⟩ := exists_sign s
  obtain ⟨hr, hwhole⟩ := exists_whole hw
  obtain ⟨rfl, hfraction⟩ := exists_fraction hf
  obtain ⟨rfl, hexponent⟩ := exists_exponent he
  refine ⟨?_, _, w, f, e, rfl, hsign, hwhole, hfraction, hexponent⟩
  conv_lhs => rw [hs, hr]
  simp only [List.append_assoc]

/-! ### A number in front of a text -/

lemma IsDigits.exists_cons {ds : Bytes} (h : IsDigits ds) :
    ∃ c r, ds = c :: r ∧ Ascii.isDigit c = true := by
  obtain ⟨c, r, rfl⟩ := List.exists_cons_of_ne_nil h.1
  exact ⟨c, r, rfl, h.2 c List.mem_cons_self⟩

lemma IsDigits.isEmpty {ds : Bytes} (h : IsDigits ds) : ds.isEmpty = false := by
  simpa using h.1

lemma IsWhole.isDigits {w : Bytes} (h : IsWhole w) : IsDigits w := by
  obtain rfl | ⟨hdigits, -⟩ := h
  · exact ⟨by simp, by simp [Ascii.isDigit]⟩
  · exact hdigits

lemma sign_append {sign : Bytes} (hsign : sign = [] ∨ sign = [Ascii.minus]) {w : Bytes}
    (hw : IsWhole w) (s : Bytes) : Json.sign (sign ++ (w ++ s)) = (sign, w ++ s) := by
  rcases hsign with rfl | rfl
  · obtain ⟨c, r, rfl, hc⟩ := hw.isDigits.exists_cons
    have hne : c ≠ 45 := by
      rintro rfl
      cases hc
    simp [Json.sign, hne]
  · rfl

lemma whole?_append {w : Bytes} (hw : IsWhole w) {s : Bytes}
    (hs : ∀ c ∈ s.head?, Ascii.isDigit c = false) : whole? (w ++ s) = some (w, s) := by
  obtain rfl | ⟨hdigits, hzero⟩ := hw
  · rfl
  · obtain ⟨c, r, rfl, -⟩ := hdigits.exists_cons
    have hne : c ≠ 48 := fun hc => hzero (hc ▸ rfl)
    have hread := digits_append hdigits.2 hs
    rw [List.cons_append] at hread ⊢
    simp [whole?, hne, hread]

lemma fraction?_append {f : Bytes} (hf : IsFraction f) {s : Bytes}
    (hs : ∀ c ∈ s.head?, Ascii.isDigit c = false ∧ c ≠ 46) : fraction? (f ++ s) = some (f, s) := by
  obtain rfl | ⟨ds, rfl, hdigits⟩ := hf
  · cases s with
    | nil => rfl
    | cons c s =>
      have hpoint : c ≠ 46 := (hs c rfl).2
      simp [fraction?, hpoint]
  · simp [fraction?, digits_append hdigits.2 fun c hc => (hs c hc).1, hdigits.1]

lemma exponentSign_append {sign : Bytes}
    (hsign : sign = [] ∨ sign = [Ascii.plus] ∨ sign = [Ascii.minus]) {ds : Bytes}
    (hdigits : IsDigits ds) (s : Bytes) :
    exponentSign (sign ++ (ds ++ s)) = (sign, ds ++ s) := by
  rcases hsign with rfl | rfl | rfl
  · obtain ⟨c, r, rfl, hc⟩ := hdigits.exists_cons
    have hplus : (c == Ascii.plus) = false := Ascii.beq_of_isDigit hc rfl
    have hminus : (c == Ascii.minus) = false := Ascii.beq_of_isDigit hc rfl
    simp [exponentSign, hplus, hminus]
  · rfl
  · rfl

lemma exponent?_append {e : Bytes} (he : IsExponent e) {s : Bytes} (hs : Stops s) :
    exponent? (e ++ s) = some (e, s) := by
  obtain rfl | ⟨c, sign, ds, rfl, hc, hsign, hdigits⟩ := he
  · cases s with
    | nil => rfl
    | cons c s =>
      obtain ⟨-, -, hsmall, hcapital⟩ := hs c rfl
      simp [exponent?, hsmall, hcapital]
  · have hletter : (c == 101 || c == 69) = true := by simpa using hc
    have hread := digits_append hdigits.2 fun c hc => (hs c hc).1
    simp [exponent?, hletter, exponentSign_append hsign hdigits, hread, hdigits.isEmpty]

/-- An exponent, or what follows the number, does not go on with the digits in front of it. -/
lemma IsExponent.head?_append {e : Bytes} (he : IsExponent e) {s : Bytes} (hs : Stops s) :
    ∀ c ∈ (e ++ s).head?, Ascii.isDigit c = false ∧ c ≠ 46 := by
  obtain rfl | ⟨c, sign, ds, rfl, hc, -, -⟩ := he
  · exact fun c hc => ⟨(hs c hc).1, (hs c hc).2.1⟩
  · intro c' hc'
    obtain rfl : c = c' := Option.some.inj hc'
    rcases hc with rfl | rfl <;> decide

lemma IsFraction.head?_append {f : Bytes} (hf : IsFraction f) {s : Bytes}
    (hs : ∀ c ∈ s.head?, Ascii.isDigit c = false) :
    ∀ c ∈ (f ++ s).head?, Ascii.isDigit c = false := by
  obtain rfl | ⟨ds, rfl, -⟩ := hf
  · exact hs
  · intro c hc
    obtain rfl : 46 = c := Option.some.inj hc
    rfl

/-- A number is read whole. -/
lemma IsNumber.number? {t : Bytes} (h : IsNumber t) {s : Bytes} (hs : Stops s) :
    number? (t ++ s) = some (t, s) := by
  obtain ⟨sign, w, f, e, rfl, hsign, hw, hf, he⟩ := h
  have hhead := he.head?_append hs
  have hsplit := sign_append hsign hw (f ++ (e ++ s))
  have happend : sign ++ w ++ f ++ e ++ s = sign ++ (w ++ (f ++ (e ++ s))) := by
    simp only [List.append_assoc]
  rw [happend, number?_eq_some_iff, hsplit]
  exact ⟨w, _, f, _, e, whole?_append hw (hf.head?_append fun c hc => (hhead c hc).1),
    fraction?_append hf hhead, exponent?_append he hs, rfl⟩

/-- A number begins with a digit or a minus sign. -/
lemma IsNumber.exists_cons {t : Bytes} (h : IsNumber t) :
    ∃ c r, t = c :: r ∧ (Ascii.isDigit c = true ∨ c = Ascii.minus) := by
  obtain ⟨sign, w, f, e, rfl, hsign, hw, -, -⟩ := h
  obtain ⟨c, r, rfl, hc⟩ := hw.isDigits.exists_cons
  rcases hsign with rfl | rfl
  · exact ⟨c, _, rfl, .inl hc⟩
  · exact ⟨Ascii.minus, _, rfl, .inr rfl⟩

end Json

end ConsoleShell
