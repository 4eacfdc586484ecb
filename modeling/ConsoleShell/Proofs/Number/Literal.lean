/-
Integer literals.

A literal is a run of digits with what chooses their base in front: a leading zero with a letter,
a leading zero alone, or nothing.  Its value weighs the digits by powers of the base.  The reader
takes the digits from left to right and gives up as soon as their value leaves 64 bits.  This file
says which texts are literals of which values, without the reader, and proves that the reader
takes exactly the literals whose values fit, and finds a text out of range exactly if it begins
with a literal whose value does not fit.
-/
import ConsoleShell.Number.Numeral
import ConsoleShell.Proofs.Number.Rendering

namespace ConsoleShell

/-! ### Digits -/

namespace Ascii

/-- The byte is the digit with a value, the letters of either case counting from ten. -/
def IsDigitOf (c : UInt8) (d : Nat) : Prop :=
  (d < 10 ∧ c.toNat = 48 + d) ∨ (10 ≤ d ∧ d < 36 ∧ (c.toNat = 87 + d ∨ c.toNat = 55 + d))

lemma isLetter_iff {c : UInt8} : isLetter c = true ↔
    (65 ≤ c.toNat ∧ c.toNat ≤ 90) ∨ (97 ≤ c.toNat ∧ c.toNat ≤ 122) := by
  simp [isLetter, UInt8.le_iff_toNat_le]

lemma toNat_toLower (c : UInt8) : (toLower c).toNat =
    if 65 ≤ c.toNat ∧ c.toNat ≤ 90 then c.toNat + 32 else c.toNat := by
  have hif : (65 ≤ c && c ≤ 90) = true ↔ 65 ≤ c.toNat ∧ c.toNat ≤ 90 := by
    simp [UInt8.le_iff_toNat_le]
  simp only [toLower, hif]
  split
  · rw [UInt8.toNat_add, show (32 : UInt8).toNat = 32 from rfl]
    omega
  · rfl

/-- A small letter stands for itself and for its capital. -/
lemma toLower_eq_iff {c x : UInt8} (hx : 97 ≤ x.toNat ∧ x.toNat ≤ 122) :
    toLower c = x ↔ c = x ∨ c = x - 32 := by
  have hcapital : (x - 32).toNat = x.toNat - 32 := by
    rw [UInt8.toNat_sub, show (32 : UInt8).toNat = 32 from rfl]
    omega
  rw [← UInt8.toNat_inj, toNat_toLower, ← UInt8.toNat_inj, ← UInt8.toNat_inj, hcapital]
  split <;> omega

lemma digitValue?_eq_some_iff {c : UInt8} {d : Nat} :
    digitValue? c = some d ↔ IsDigitOf c d := by
  rw [digitValue?, toNat_toLower]
  simp only [isDigit_iff, isLetter_iff, IsDigitOf]
  split
  · rw [Option.some_inj]
    omega
  split
  · rw [Option.some_inj]
    split <;> omega
  · simp only [reduceCtorEq, false_iff]
    omega

end Ascii

namespace Numeral

open Ascii (IsDigitOf)

/-- The bytes are digits of a base, with these values. -/
abbrev Spells (base : Nat) : Bytes → List Nat → Prop :=
  List.Forall₂ fun c d => d < base ∧ IsDigitOf c d

/-- The value of digits in a base, of which the first counts most. -/
def ofDigits (base : Nat) (ds : List Nat) : Nat := Nat.ofDigits base ds.reverse

@[simp]
lemma ofDigits_nil (base : Nat) : ofDigits base [] = 0 := rfl

@[simp]
lemma ofDigits_cons (base d : Nat) (ds : List Nat) :
    ofDigits base (d :: ds) = d * base ^ ds.length + ofDigits base ds := by
  rw [ofDigits, ofDigits, List.reverse_cons, Nat.ofDigits_append, Nat.ofDigits_singleton,
    List.length_reverse]
  ring

/-! ### Literals -/

/-- The letter, in either case, chooses the base of the digits after it. -/
inductive Chooses : UInt8 → Nat → Prop
  | binary {c : UInt8} : c = 98 ∨ c = 66 → Chooses c 2
  | octal {c : UInt8} : c = 111 ∨ c = 79 → Chooses c 8
  | hexadecimal {c : UInt8} : c = 120 ∨ c = 88 → Chooses c 16

/-- The text is an unsigned integer literal with a value. -/
inductive Literal : Bytes → Nat → Prop
  | decimal {s : Bytes} {ds : List Nat} :
    Spells 10 s ds → s ≠ [] → s.head? ≠ some 48 → Literal s (ofDigits 10 ds)
  /-- A leading zero is octal, and a digit by itself. -/
  | zero {s : Bytes} {ds : List Nat} : Spells 8 s ds → Literal (48 :: s) (ofDigits 8 ds)
  | lettered {c : UInt8} {base : Nat} {s : Bytes} {ds : List Nat} :
    Chooses c base → Spells base s ds → s ≠ [] → Literal (48 :: c :: s) (ofDigits base ds)

/-- The text is an integer literal, with a minus sign in front or not, and has a value. -/
inductive Denotes : Bytes → Int → Prop
  | plain {s : Bytes} {n : Nat} : Literal s n → Denotes s n
  | minus {s : Bytes} {n : Nat} : Literal s n → Denotes (Ascii.minus :: s) (-n)

/-! ### Reading digits -/

variable {base n : Nat} {p s : Bytes} {ds : List Nat}

lemma digits_cons_of_digit {c : UInt8} {d : Nat} (hc : IsDigitOf c d) (hd : d < base)
    (underscores : Bool) (n : Nat) (s : Bytes) : digits base underscores n (c :: s) =
      if maxUnsigned < n * base + d then .error .outOfRange
      else digits base underscores (n * base + d) s := by
  have hunderscore : (c == Ascii.underscore) = false := by
    refine beq_false_of_ne ?_
    rintro rfl
    rw [IsDigitOf, show Ascii.underscore.toNat = 95 from rfl] at hc
    omega
  rw [digits, hunderscore, Bool.and_false, if_neg Bool.false_ne_true,
    Ascii.digitValue?_eq_some_iff.2 hc]
  simp only [if_neg (not_le.2 hd)]

/-- Digits in front are taken, unless their value leaves 64 bits. -/
lemma digits_append (h : Spells base p ds) (underscores : Bool) (hn : n ≤ maxUnsigned)
    (s : Bytes) : digits base underscores n (p ++ s) =
      if maxUnsigned < n * base ^ ds.length + ofDigits base ds then .error .outOfRange
      else digits base underscores (n * base ^ ds.length + ofDigits base ds) s := by
  induction h generalizing n with
  | nil => simp [not_lt.2 hn]
  | @cons c d p ds hc hrest ih =>
    have hvalue : n * base ^ (d :: ds).length + ofDigits base (d :: ds) =
        (n * base + d) * base ^ ds.length + ofDigits base ds := by
      rw [ofDigits_cons, List.length_cons, pow_succ]
      ring
    rw [hvalue, List.cons_append, digits_cons_of_digit hc.2 hc.1]
    split
    · rename_i hlarge
      -- more digits do not make the value smaller
      have hpow : 1 ≤ base ^ ds.length := Nat.one_le_pow _ _ (by omega)
      have hle : n * base + d ≤ (n * base + d) * base ^ ds.length := Nat.le_mul_of_pos_right _ hpow
      rw [if_pos (by omega)]
    · rename_i hsmall
      exact ih (not_lt.1 hsmall)

/-- A text is a run of digits, and what follows does not begin with a digit. -/
lemma exists_spells (base : Nat) (s : Bytes) : ∃ p ds r, s = p ++ r ∧ Spells base p ds ∧
    ∀ c t, r = c :: t → ∀ d, IsDigitOf c d → base ≤ d := by
  induction s with
  | nil => exact ⟨[], [], [], rfl, .nil, by simp⟩
  | cons c s ih =>
    by_cases hc : ∃ d, d < base ∧ IsDigitOf c d
    · obtain ⟨d, hd, hc⟩ := hc
      obtain ⟨p, ds, r, rfl, hp, hr⟩ := ih
      exact ⟨c :: p, d :: ds, r, rfl, .cons ⟨hd, hc⟩ hp, hr⟩
    · refine ⟨[], [], c :: s, rfl, .nil, fun c' t heq d hd => ?_⟩
      obtain ⟨rfl, rfl⟩ := List.cons.inj heq
      exact not_lt.1 fun hlt => hc ⟨d, hlt, hd⟩

lemma digits_of_not_digit {c : UInt8} (hunderscore : c ≠ Ascii.underscore)
    (hc : ∀ d, IsDigitOf c d → base ≤ d) (underscores : Bool) (n : Nat) (s : Bytes) :
    digits base underscores n (c :: s) = .error .malformed := by
  rw [digits, beq_false_of_ne hunderscore, Bool.and_false, if_neg Bool.false_ne_true]
  cases hd : Ascii.digitValue? c with
  | none => rfl
  | some d => exact if_pos (hc d (Ascii.digitValue?_eq_some_iff.1 hd))

/-- Without underscores, digits are taken up to what is no digit or to where they leave 64 bits. -/
lemma digits_cases (base : Nat) (underscores : Bool) (hs : Ascii.underscore ∉ s) :
    (∃ ds, Spells base s ds ∧ ofDigits base ds ≤ maxUnsigned ∧
      digits base underscores 0 s = .ok (ofDigits base ds)) ∨
    (∃ p ds r, s = p ++ r ∧ Spells base p ds ∧ maxUnsigned < ofDigits base ds ∧
      digits base underscores 0 s = .error .outOfRange) ∨
    digits base underscores 0 s = .error .malformed := by
  obtain ⟨p, ds, r, rfl, hp, hr⟩ := exists_spells base s
  have hread := digits_append hp underscores (Nat.zero_le _) r
  simp only [zero_mul, zero_add] at hread
  by_cases hlarge : maxUnsigned < ofDigits base ds
  · exact .inr (.inl ⟨p, ds, r, rfl, hp, hlarge, by rw [hread, if_pos hlarge]⟩)
  rw [hread, if_neg hlarge]
  cases r with
  | nil => exact .inl ⟨ds, by rwa [List.append_nil], not_lt.1 hlarge, rfl⟩
  | cons c t =>
    have hc : c ≠ Ascii.underscore := by
      rintro rfl
      exact hs (by simp)
    exact .inr (.inr (digits_of_not_digit hc (hr c t rfl) _ _ _))

/-! ### The base -/

lemma base_of_chooses {c : UInt8} (h : Chooses c base) (hs : s ≠ []) :
    Numeral.base (48 :: c :: s) = (base, s) := by
  obtain ⟨d, t, rfl⟩ := List.exists_cons_of_ne_nil hs
  cases h with
  | binary h => simp [Numeral.base, (Ascii.toLower_eq_iff (by decide)).2 h]
  | octal h => simp [Numeral.base, (Ascii.toLower_eq_iff (by decide)).2 h]
  | hexadecimal h => simp [Numeral.base, (Ascii.toLower_eq_iff (by decide)).2 h]

lemma base_of_zero (h : ∀ c t, s = c :: t → t ≠ [] → ∀ b, ¬ Chooses c b) :
    Numeral.base (48 :: s) = (8, s) := by
  rcases s with _ | ⟨c, _ | ⟨d, t⟩⟩
  · rfl
  · rfl
  · have hc := h c (d :: t) rfl (List.cons_ne_nil d t)
    have hb : Ascii.toLower c ≠ 98 := fun heq =>
      hc 2 (.binary ((Ascii.toLower_eq_iff (by decide)).1 heq))
    have ho : Ascii.toLower c ≠ 111 := fun heq =>
      hc 8 (.octal ((Ascii.toLower_eq_iff (by decide)).1 heq))
    have hx : Ascii.toLower c ≠ 120 := fun heq =>
      hc 16 (.hexadecimal ((Ascii.toLower_eq_iff (by decide)).1 heq))
    simp [Numeral.base, hb, ho, hx]

lemma base_of_head?_ne (h : s.head? ≠ some 48) : Numeral.base s = (10, s) := by
  rw [Numeral.base.eq_def]
  split
  · exact absurd rfl h
  · exact absurd rfl h
  · rfl

lemma Chooses.not_isDigitOf {c : UInt8} (h : Chooses c base) {d : Nat} (hd : d < 8) :
    ¬ IsDigitOf c d := by
  rw [IsDigitOf]
  cases h with
  | binary h => rcases h with rfl | rfl <;> simp only [UInt8.reduceToNat] <;> omega
  | octal h => rcases h with rfl | rfl <;> simp only [UInt8.reduceToNat] <;> omega
  | hexadecimal h => rcases h with rfl | rfl <;> simp only [UInt8.reduceToNat] <;> omega

lemma Literal.eq_zero (h : Literal [48] n) : n = 0 := by
  cases h with
  | decimal _ _ hhead => exact absurd rfl hhead
  | zero h =>
    cases h
    rfl

/-- What stands behind a literal does not change its base, unless the literal is a lone zero. -/
lemma Literal.exists_spells (h : Literal p n) {r : Bytes} (hr : p = [48] → r = []) :
    ∃ b q ds, Numeral.base (p ++ r) = (b, q ++ r) ∧ Spells b q ds ∧ n = ofDigits b ds := by
  cases h with
  | decimal hp hne hhead =>
    refine ⟨10, p, _, base_of_head?_ne ?_, hp, rfl⟩
    rwa [List.head?_append_of_ne_nil _ hne]
  | @zero q ds hq =>
    refine ⟨8, q, ds, base_of_zero fun c t heq ht b hc => ?_, hq, rfl⟩
    cases hq with
    | nil =>
      rw [hr rfl] at heq
      cases heq
    | cons hd _ =>
      obtain ⟨rfl, -⟩ := List.cons.inj heq
      exact hc.not_isDigitOf hd.1 hd.2
  | @lettered c b q ds hc hq hne =>
    exact ⟨b, q, ds, base_of_chooses hc (by simp [hne]), hq, rfl⟩

/-- Digits behind what chooses their base are a literal with it. -/
lemma exists_literal {q r : Bytes} (hs : s ≠ []) (hbase : (Numeral.base s).2 = q ++ r)
    (hq : Spells (Numeral.base s).1 q ds) (hr : q = [] → r = []) :
    ∃ p, s = p ++ r ∧ Literal p (ofDigits (Numeral.base s).1 ds) := by
  by_cases hhead : s.head? = some 48
  · obtain ⟨t, rfl⟩ : ∃ t, s = 48 :: t := List.head?_eq_some_iff.1 hhead
    by_cases hletter : ∃ c u b, t = c :: u ∧ u ≠ [] ∧ Chooses c b
    · obtain ⟨c, u, b, rfl, hu, hc⟩ := hletter
      rw [base_of_chooses hc hu] at hbase hq ⊢
      obtain rfl : u = q ++ r := hbase
      refine ⟨48 :: c :: q, rfl, .lettered hc hq ?_⟩
      rintro rfl
      exact hu (by rw [List.nil_append, hr rfl])
    · have hzero := base_of_zero (s := t) fun c u ht hu b hc => hletter ⟨c, u, b, ht, hu, hc⟩
      rw [hzero] at hbase hq ⊢
      obtain rfl : t = q ++ r := hbase
      exact ⟨48 :: q, rfl, .zero hq⟩
  · rw [base_of_head?_ne hhead] at hbase hq ⊢
    obtain rfl : s = q ++ r := hbase
    have hne : q ≠ [] := by
      rintro rfl
      exact hs (by rw [List.nil_append, hr rfl])
    rw [List.head?_append_of_ne_nil _ hne] at hhead
    exact ⟨q, rfl, .decimal hq hne hhead⟩

/-! ### The reader -/

lemma base_isSuffix (s : Bytes) : (Numeral.base s).2 <:+ s := by
  rw [Numeral.base.eq_def]
  split
  · lift_lets
    extract_lets l
    have hletter : ∀ b d : UInt8, ∀ r : Bytes, d :: r <:+ 48 :: b :: d :: r := fun b d r =>
      (List.suffix_cons b _).trans (List.suffix_cons 48 _)
    split
    · exact hletter _ _ _
    split
    · exact hletter _ _ _
    split
    · exact hletter _ _ _
    · exact List.suffix_cons 48 _
  · exact List.suffix_cons 48 _
  · exact List.suffix_refl _

lemma parseUnsigned_eq (hne : s ≠ []) (hs : Ascii.underscore ∉ s) :
    parseUnsigned s = digits (Numeral.base s).1 true 0 (Numeral.base s).2 := by
  have hempty : s.isEmpty = false := by simpa using hne
  have hcontains : s.contains Ascii.underscore = false := by simpa using hs
  rw [parseUnsigned, hempty, if_neg Bool.false_ne_true, hcontains]
  cases hread : digits (Numeral.base s).1 true 0 (Numeral.base s).2 with
  | error f => simp only [hread]
  | ok n => simp only [hread, Bool.false_and, Bool.false_eq_true, if_false]

/-- Reading a literal with something behind it. -/
lemma parseUnsigned_append (h : Literal p n) {r : Bytes} (hr : p = [48] → r = [])
    (hs : Ascii.underscore ∉ p ++ r) : ∃ b, parseUnsigned (p ++ r) =
      if maxUnsigned < n then .error .outOfRange else digits b true n r := by
  have hne : p ++ r ≠ [] := by
    cases h with
    | decimal _ hne _ => simp [hne]
    | zero _ => simp
    | lettered _ _ _ => simp
  obtain ⟨b, q, ds, hbase, hq, rfl⟩ := h.exists_spells hr
  have hread := digits_append hq true (Nat.zero_le maxUnsigned) r
  simp only [zero_mul, zero_add] at hread
  exact ⟨b, by rw [parseUnsigned_eq hne hs, hbase, hread]⟩

/-- What becomes of a text without underscores. -/
lemma parseUnsigned_cases (hs : Ascii.underscore ∉ s) :
    (∃ n, Literal s n ∧ n ≤ maxUnsigned ∧ parseUnsigned s = .ok n) ∨
    ((∃ p n, p <+: s ∧ Literal p n ∧ maxUnsigned < n) ∧ parseUnsigned s = .error .outOfRange) ∨
    parseUnsigned s = .error .malformed := by
  by_cases hne : s = []
  · subst hne
    exact .inr (.inr rfl)
  rw [parseUnsigned_eq hne hs]
  have hs' : Ascii.underscore ∉ (Numeral.base s).2 := fun h => hs ((base_isSuffix s).mem h)
  obtain ⟨ds, hspell, hle, hread⟩ | ⟨p, ds, r, hpr, hspell, hlarge, hread⟩ | hread :=
    digits_cases (Numeral.base s).1 true hs'
  · obtain ⟨p, hp, hliteral⟩ := exists_literal hne (List.append_nil _).symm hspell fun _ => rfl
    rw [List.append_nil] at hp
    exact .inl ⟨_, hp ▸ hliteral, hle, hread⟩
  · -- digits whose value is too large are not none
    obtain ⟨p', hp, hliteral⟩ := exists_literal hne hpr hspell (by
      rintro rfl
      cases hspell
      simp at hlarge)
    exact .inr (.inl ⟨⟨p', _, ⟨r, hp.symm⟩, hliteral, hlarge⟩, hread⟩)
  · exact .inr (.inr hread)

lemma le_maxUnsigned_iff : n ≤ maxUnsigned ↔ n < 2 ^ 64 := by
  rw [maxUnsigned]
  omega

/-- A text is read exactly if it is a literal whose value fits. -/
lemma parseUnsigned_eq_ok_iff (hs : Ascii.underscore ∉ s) :
    parseUnsigned s = .ok n ↔ Literal s n ∧ n < 2 ^ 64 := by
  rw [← le_maxUnsigned_iff]
  constructor
  · intro h
    obtain ⟨m, hliteral, hle, hread⟩ | ⟨-, hread⟩ | hread := parseUnsigned_cases hs
    · obtain rfl := Except.ok.inj (h.symm.trans hread)
      exact ⟨hliteral, hle⟩
    · cases h.symm.trans hread
    · cases h.symm.trans hread
  · rintro ⟨hliteral, hle⟩
    obtain ⟨b, hread⟩ := parseUnsigned_append hliteral (r := []) (fun _ => rfl) (by simpa using hs)
    rw [List.append_nil, if_neg (not_lt.2 hle)] at hread
    exact hread

/-- A text is out of range exactly if it begins with a literal whose value does not fit,
whatever follows. -/
lemma parseUnsigned_eq_outOfRange_iff (hs : Ascii.underscore ∉ s) :
    parseUnsigned s = .error .outOfRange ↔ ∃ p n, p <+: s ∧ Literal p n ∧ 2 ^ 64 ≤ n := by
  have hfit (m : Nat) : 2 ^ 64 ≤ m ↔ maxUnsigned < m := by
    rw [← not_le, le_maxUnsigned_iff, not_lt]
  simp only [hfit]
  constructor
  · intro h
    obtain ⟨m, -, -, hread⟩ | ⟨hlarge, -⟩ | hread := parseUnsigned_cases hs
    · cases h.symm.trans hread
    · exact hlarge
    · cases h.symm.trans hread
  · rintro ⟨p, n, ⟨r, rfl⟩, hliteral, hlarge⟩
    obtain ⟨b, hread⟩ := parseUnsigned_append hliteral (r := r) (by
      rintro rfl
      rw [hliteral.eq_zero] at hlarge
      cases hlarge) hs
    rw [hread, if_pos hlarge]

end Numeral

end ConsoleShell
