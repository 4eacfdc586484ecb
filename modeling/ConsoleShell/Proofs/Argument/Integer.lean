/-
Integer arguments.

A word is read as a signed number, and once more as an unsigned one if it is too large for that.
Together the two readings take an optional minus sign and a literal, for all values from the least
signed number to the largest unsigned one, and the upper half wraps around.  A plus sign is taken
by the first reading only: in front of a number that needs the second one it makes the word
illegal.  Both statements are about all words, with the grammar of literals on their other side.
-/
import ConsoleShell.Argument
import ConsoleShell.Proofs.Number.Literal

namespace ConsoleShell

/-! ### Signs and literals -/

namespace Ascii

lemma IsDigitOf.ne {c x : UInt8} {d : Nat} (h : IsDigitOf c d)
    (hx : x.toNat < 48 ∨ x.toNat = 95) : c ≠ x := by
  rintro rfl
  rw [IsDigitOf] at h
  omega

end Ascii

namespace Numeral

variable {n : Nat} {s : Bytes}

/-- The signed number of 64 bits that stands for a value below `2 ^ 64`. -/
def reduced (v : Int) : Int := if v < 2 ^ 63 then v else v - 2 ^ 64

lemma reduced_of_lt {v : Int} (h : v < 2 ^ 63) : reduced v = v := if_pos h

lemma wrap_eq_reduced (h : n < 2 ^ 64) : wrap n = reduced n := by
  have hbmod : (n : Int).bmod (2 ^ 64) = if (n : Int) < 2 ^ 63 then (n : Int) else n - 2 ^ 64 := by
    rw [Int.bmod_def]
    split_ifs <;> omega
  exact hbmod

lemma wrap_of_lt (h : n < 2 ^ 63) : wrap n = n := by
  rw [wrap_eq_reduced (by omega), reduced_of_lt (by omega)]

lemma notMem_of_spells {base : Nat} {ds : List Nat} (h : Spells base s ds) {x : UInt8}
    (hx : x.toNat < 48 ∨ x.toNat = 95) : x ∉ s := by
  intro hmem
  obtain ⟨i, hi, rfl⟩ := List.mem_iff_getElem.1 hmem
  have hd := h.get hi (h.length_eq ▸ hi)
  exact hd.2.ne hx rfl

lemma Chooses.ne {c x : UInt8} {base : Nat} (h : Chooses c base)
    (hx : x.toNat < 48 ∨ x.toNat = 95) : c ≠ x := by
  rintro rfl
  cases h with
  | binary h => rcases h with rfl | rfl <;> exact absurd hx (by decide)
  | octal h => rcases h with rfl | rfl <;> exact absurd hx (by decide)
  | hexadecimal h => rcases h with rfl | rfl <;> exact absurd hx (by decide)

/-- Neither signs nor underscores occur in a literal. -/
lemma Literal.notMem (h : Literal s n) {x : UInt8} (hx : x.toNat < 48 ∨ x.toNat = 95) :
    x ∉ s := by
  have hzero : x ≠ 48 := by
    rintro rfl
    exact absurd hx (by decide)
  cases h with
  | decimal hs _ _ => exact notMem_of_spells hs hx
  | zero hs => exact List.not_mem_cons_of_ne_of_not_mem hzero (notMem_of_spells hs hx)
  | lettered hc hs _ =>
    refine List.not_mem_cons_of_ne_of_not_mem hzero ?_
    exact List.not_mem_cons_of_ne_of_not_mem (hc.ne hx).symm (notMem_of_spells hs hx)

lemma Literal.head?_ne (h : Literal s n) {x : UInt8} (hx : x.toNat < 48) : s.head? ≠ some x :=
  fun hhead => h.notMem (.inl hx) (List.mem_of_mem_head? hhead)

lemma sign_eq (hplus : s.head? ≠ some Ascii.plus) (hminus : s.head? ≠ some Ascii.minus) :
    sign s = (false, s) := by
  cases s with
  | nil => rfl
  | cons c s =>
    have hc : c ≠ Ascii.plus := fun h => hplus (congrArg some h)
    have hc' : c ≠ Ascii.minus := fun h => hminus (congrArg some h)
    rw [sign, beq_false_of_ne hc, beq_false_of_ne hc']
    rfl

/-- Nothing with a sign in front is an unsigned literal. -/
lemma parseUnsigned_sign {c : UInt8} (hc : c.toNat < 48) (hs : Ascii.underscore ∉ s) :
    parseUnsigned (c :: s) = .error .malformed := by
  have hne : c ≠ Ascii.underscore := by
    rintro rfl
    exact absurd hc (by decide)
  have hhead : (c :: s).head? ≠ some 48 := by
    rw [List.head?_cons, Ne, Option.some_inj]
    rintro rfl
    exact absurd hc (by decide)
  rw [parseUnsigned_eq (List.cons_ne_nil c s) (List.not_mem_cons_of_ne_of_not_mem hne.symm hs),
    base_of_head?_ne hhead]
  exact digits_of_not_digit hne (fun d hd => absurd rfl (hd.ne (.inl hc))) _ _ _

end Numeral

namespace Argument

open Numeral

variable {w t : Bytes} {handle : Option Handle}

lemma convert_int (hw : w ≠ []) : convert handle .int (some w) = (parseInteger w).map .int := by
  rw [convert, Option.getD_some]
  simp [hw]

/-! ### The readings together -/

lemma parseInteger_of_underscore (hw : Ascii.underscore ∈ w) :
    parseInteger w = .error (.illegalInteger w) := by
  rw [parseInteger, if_pos (by simpa using hw)]

/-- Without a sign, both readings are one that is unsigned and wraps around. -/
lemma parseInteger_unsigned (hs : Ascii.underscore ∉ w) (hplus : w.head? ≠ some Ascii.plus)
    (hminus : w.head? ≠ some Ascii.minus) : parseInteger w =
      match parseUnsigned w with
      | .ok n => .ok (wrap n)
      | .error .outOfRange => .error (.integerOutOfRange w)
      | .error .malformed => .error (.illegalInteger w) := by
  have hsigned : parseSigned w = signed false (parseUnsigned w) := by
    rw [parseSigned, sign_eq hplus hminus]
  rw [parseInteger, if_neg (by simpa using hs), hsigned]
  cases hread : parseUnsigned w with
  | error f => cases f <;> rfl
  | ok n =>
    by_cases hn : n < 2 ^ 63
    · simp only [signed, Bool.false_eq_true, if_false, if_pos hn, wrap_of_lt hn]
    · simp only [signed, Bool.false_eq_true, if_false, if_neg hn]

/-- With a sign, the first reading decides, and only a minus sign keeps the reason of its fault. -/
lemma parseInteger_sign {c : UInt8} (hc : c.toNat < 48) (hs : Ascii.underscore ∉ w) :
    parseInteger (c :: w) = match parseSigned (c :: w) with
      | .ok i => .ok i
      | .error .malformed => .error (.illegalInteger (c :: w))
      | .error .outOfRange =>
        if c = Ascii.minus then .error (.integerOutOfRange (c :: w))
        else .error (.illegalInteger (c :: w)) := by
  have hne : Ascii.underscore ≠ c := by
    rintro rfl
    exact absurd hc (by decide)
  have hcontains : ¬ (c :: w).contains Ascii.underscore = true := by
    rw [List.contains_iff_mem]
    exact List.not_mem_cons_of_ne_of_not_mem hne hs
  rw [parseInteger, if_neg hcontains, parseUnsigned_sign hc hs]
  cases parseSigned (c :: w) with
  | ok i => rfl
  | error f =>
    cases f with
    | malformed => rfl
    | outOfRange => simp only [List.head?_cons, beq_iff_eq, Option.some.injEq]

lemma parseInteger_minus (hs : Ascii.underscore ∉ w) : parseInteger (Ascii.minus :: w) =
    match parseUnsigned w with
    | .ok n =>
      if n ≤ 2 ^ 63 then .ok (-(n : Int)) else .error (.integerOutOfRange (Ascii.minus :: w))
    | .error .outOfRange => .error (.integerOutOfRange (Ascii.minus :: w))
    | .error .malformed => .error (.illegalInteger (Ascii.minus :: w)) := by
  have hsigned : parseSigned (Ascii.minus :: w) = signed true (parseUnsigned w) := rfl
  rw [parseInteger_sign (by decide) hs, hsigned]
  cases parseUnsigned w with
  | error f => cases f <;> rfl
  | ok n =>
    by_cases hn : n ≤ 2 ^ 63
    · simp only [signed, if_true, if_pos hn]
    · simp only [signed, if_true, if_neg hn]

lemma parseInteger_plus (hs : Ascii.underscore ∉ w) : parseInteger (Ascii.plus :: w) =
    match parseUnsigned w with
    | .ok n => if n < 2 ^ 63 then .ok (n : Int) else .error (.illegalInteger (Ascii.plus :: w))
    | .error _ => .error (.illegalInteger (Ascii.plus :: w)) := by
  have hsigned : parseSigned (Ascii.plus :: w) = signed false (parseUnsigned w) := rfl
  have hne : Ascii.plus ≠ Ascii.minus := by decide
  rw [parseInteger_sign (by decide) hs, hsigned]
  cases parseUnsigned w with
  | error f => cases f <;> rfl
  | ok n =>
    by_cases hn : n < 2 ^ 63
    · simp only [signed, Bool.false_eq_true, if_false, if_pos hn]
    · simp only [signed, Bool.false_eq_true, if_false, if_neg hn, if_neg hne]

/-! ### What is taken -/

lemma parseInteger_eq_ok_iff (hplus : w.head? ≠ some Ascii.plus) {i : Int} :
    parseInteger w = .ok i ↔ ∃ v, Denotes w v ∧ -2 ^ 63 ≤ v ∧ v < 2 ^ 64 ∧ i = reduced v := by
  constructor
  · intro h
    by_cases hs : Ascii.underscore ∈ w
    · rw [parseInteger_of_underscore hs] at h
      cases h
    by_cases hminus : w.head? = some Ascii.minus
    · obtain ⟨s, rfl⟩ := List.head?_eq_some_iff.1 hminus
      have hs' := List.not_mem_of_not_mem_cons hs
      rw [parseInteger_minus hs'] at h
      split at h
      · rename_i n hread
        split_ifs at h with hn
        obtain rfl := Except.ok.inj h
        obtain ⟨hliteral, -⟩ := (parseUnsigned_eq_ok_iff hs').1 hread
        exact ⟨-n, .minus hliteral, by omega, by omega, (reduced_of_lt (by omega)).symm⟩
      · cases h
      · cases h
    · rw [parseInteger_unsigned hs hplus hminus] at h
      split at h
      · rename_i n hread
        obtain rfl := Except.ok.inj h
        obtain ⟨hliteral, hn⟩ := (parseUnsigned_eq_ok_iff hs).1 hread
        exact ⟨n, .plain hliteral, by omega, by omega, wrap_eq_reduced hn⟩
      · cases h
      · cases h
  · rintro ⟨v, hv, hlow, hhigh, rfl⟩
    cases hv with
    | @plain _ n hliteral =>
      have hs := hliteral.notMem (x := Ascii.underscore) (.inr rfl)
      have hread := (parseUnsigned_eq_ok_iff hs).2 ⟨hliteral, by omega⟩
      rw [parseInteger_unsigned hs hplus (hliteral.head?_ne (by decide)), hread]
      exact congrArg Except.ok (wrap_eq_reduced (by omega))
    | @minus s n hliteral =>
      have hs := hliteral.notMem (x := Ascii.underscore) (.inr rfl)
      have hread := (parseUnsigned_eq_ok_iff hs).2 ⟨hliteral, by omega⟩
      rw [parseInteger_minus hs, hread, reduced_of_lt (by omega)]
      exact if_pos (by omega)

/-- **Integer arguments.**  A word that has bytes and does not begin with a plus sign is taken
exactly if it is an optional minus sign and an integer literal whose value is from the least
signed number of 64 bits to the largest unsigned one, and the argument is this value as a signed
number. -/
theorem convert_int_eq_ok_iff (handle : Option Handle) (hw : w ≠ [])
    (hplus : w.head? ≠ some Ascii.plus) (a : Argument) :
    convert handle .int (some w) = .ok a ↔
      ∃ v, Denotes w v ∧ -2 ^ 63 ≤ v ∧ v < 2 ^ 64 ∧ a = .int (reduced v) := by
  rw [convert_int hw]
  constructor
  · intro h
    cases hread : parseInteger w with
    | error f =>
      rw [hread] at h
      cases h
    | ok i =>
      rw [hread] at h
      obtain rfl := Except.ok.inj h
      obtain ⟨v, hv, hlow, hhigh, rfl⟩ := (parseInteger_eq_ok_iff hplus).1 hread
      exact ⟨v, hv, hlow, hhigh, rfl⟩
  · rintro ⟨v, hv, hlow, hhigh, rfl⟩
    rw [(parseInteger_eq_ok_iff hplus).2 ⟨v, hv, hlow, hhigh, rfl⟩]
    rfl

/-- The largest value in hexadecimal digits wraps around to minus one. -/
theorem convert_int_eq_ok_iff_largest :
    let w : Bytes := "0XfFFFFFFFFFFFFFFF"
    w ≠ [] ∧ w.head? ≠ some Ascii.plus ∧ Denotes w (2 ^ 64 - 1) ∧
      convert none .int (some w) = .ok (.int (-1)) := by
  intro w
  have hne : w ≠ [] := by decide
  have hplus : w.head? ≠ some Ascii.plus := by decide
  have hread : parseUnsigned w = .ok (2 ^ 64 - 1) := by decide
  have hliteral := ((parseUnsigned_eq_ok_iff (by decide)).1 hread).1
  have hvalue : Denotes w (2 ^ 64 - 1) := .plain hliteral
  refine ⟨hne, hplus, hvalue, (convert_int_eq_ok_iff none hne hplus _).2 ?_⟩
  exact ⟨2 ^ 64 - 1, hvalue, by norm_num, by norm_num, by decide⟩

/-! ### Plus signs -/

/-- The fault without the word that it is about. -/
def Fault.reason : Fault → Fault
  | .illegalInteger _ => .illegalInteger []
  | .integerOutOfRange _ => .integerOutOfRange []
  | .illegalDouble _ => .illegalDouble []
  | .noHandle => .noHandle
  | .notHandle _ => .notHandle []
  | .illegalKind code => .illegalKind code

/-- Both succeed with the same value, or both fail for the same reason. -/
def Alike {α : Type} (x y : Except Fault α) : Prop :=
  x.mapError Fault.reason = y.mapError Fault.reason

/-- The word has no underscore, and it is a literal that does not fit into a signed number of 64
bits or begins with one that does not fit into an unsigned number either. -/
def Oversized (w : Bytes) : Prop :=
  Ascii.underscore ∉ w ∧ ((∃ n, Literal w n ∧ 2 ^ 63 ≤ n) ∨
    ∃ p n, p <+: w ∧ Literal p n ∧ 2 ^ 64 ≤ n)

lemma oversized_iff (hs : Ascii.underscore ∉ w) : Oversized w ↔
    (∃ n, parseUnsigned w = .ok n ∧ 2 ^ 63 ≤ n) ∨ parseUnsigned w = .error .outOfRange := by
  rw [Oversized, and_iff_right hs, ← parseUnsigned_eq_outOfRange_iff hs]
  constructor
  · rintro (⟨n, hliteral, hn⟩ | hrange)
    · rcases lt_or_ge n (2 ^ 64) with hlt | hge
      · exact .inl ⟨n, (parseUnsigned_eq_ok_iff hs).2 ⟨hliteral, hlt⟩, hn⟩
      · refine .inr ((parseUnsigned_eq_outOfRange_iff hs).2 ?_)
        exact ⟨w, n, List.prefix_refl w, hliteral, hge⟩
    · exact .inr hrange
  · rintro (⟨n, hread, hn⟩ | hrange)
    · exact .inl ⟨n, ((parseUnsigned_eq_ok_iff hs).1 hread).1, hn⟩
    · exact .inr hrange

lemma alike_map_int {x y : Except Fault Int} : Alike (x.map int) (y.map int) ↔ Alike x y := by
  cases x <;> cases y <;> simp [Alike, Except.map, Except.mapError]

/-- **What a plus sign means.**  A plus sign in front of a word that begins with a digit changes
neither the value nor the reason for a failure, exactly if the word is not too large for a signed
number.  If it is, the sign makes the word illegal. -/
theorem plus_sign_alike_iff (handle : Option Handle) {c : UInt8} (hc : Ascii.isDigit c = true)
    (t : Bytes) :
    (Alike (convert handle .int (some (Ascii.plus :: c :: t)))
        (convert handle .int (some (c :: t))) ↔ ¬ Oversized (c :: t)) ∧
      (Oversized (c :: t) → convert handle .int (some (Ascii.plus :: c :: t)) =
        .error (.illegalInteger (Ascii.plus :: c :: t))) := by
  have hhead {x : UInt8} (hx : Ascii.isDigit x = false) : (c :: t).head? ≠ some x := by
    rw [List.head?_cons, Ne, Option.some_inj]
    rintro rfl
    rw [hc] at hx
    cases hx
  rw [convert_int (List.cons_ne_nil _ _), convert_int (List.cons_ne_nil _ _), alike_map_int]
  by_cases hs : Ascii.underscore ∈ c :: t
  · -- an underscore makes a word illegal before signs are looked at
    have hoversized : ¬ Oversized (c :: t) := fun h => h.1 hs
    rw [parseInteger_of_underscore hs, parseInteger_of_underscore (List.mem_cons_of_mem _ hs)]
    exact ⟨iff_of_true rfl hoversized, fun h => absurd h hoversized⟩
  have hunsigned := parseInteger_unsigned hs (hhead (by decide)) (hhead (by decide))
  rw [oversized_iff hs, parseInteger_plus hs, hunsigned]
  cases parseUnsigned (c :: t) with
  | error f =>
    cases f with
    | malformed => simp [Alike, Except.mapError, Fault.reason]
    | outOfRange => simp [Alike, Except.mapError, Except.map, Fault.reason]
  | ok n =>
    by_cases hn : n < 2 ^ 63
    · simp [hn, wrap_of_lt hn, Alike]
    · simp [hn, Alike, Except.mapError, Except.map, not_lt.1 hn]

/-- A plus sign changes nothing about the largest signed number. -/
theorem plus_sign_alike_iff_largest :
    Ascii.isDigit 57 = true ∧ ¬ Oversized "9223372036854775807" ∧
      Alike (convert none .int (some "+9223372036854775807"))
        (convert none .int (some "9223372036854775807")) := by
  have hc : Ascii.isDigit 57 = true := by decide
  have halike : Alike (convert none .int (some "+9223372036854775807"))
      (convert none .int (some "9223372036854775807")) := by
    rw [Alike]
    decide
  exact ⟨hc, ((plus_sign_alike_iff none hc "223372036854775807").1).1 halike, halike⟩

/-- The number after the largest signed one is taken without a plus sign and illegal with it. -/
theorem plus_sign_makes_illegal :
    convert none .int (some "9223372036854775808") = .ok (.int (-9223372036854775808)) ∧
      convert none .int (some "+9223372036854775808") =
        .error (.illegalInteger "+9223372036854775808") ∧
      ¬ Alike (convert none .int (some "+9223372036854775808"))
        (convert none .int (some "9223372036854775808")) := by
  have hplain : convert none .int (some "9223372036854775808") =
      .ok (.int (-9223372036854775808)) := by decide
  have hplus : convert none .int (some "+9223372036854775808") =
      .error (.illegalInteger "+9223372036854775808") := by decide
  refine ⟨hplain, hplus, ?_⟩
  rw [hplain, hplus, Alike]
  exact fun h => by cases h

end Argument

end ConsoleShell
