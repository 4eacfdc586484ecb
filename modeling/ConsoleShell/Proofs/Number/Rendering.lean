/-
The text of doubles.

A double is written with digits, a point and an exponent in places that a grammar describes.
The text of a moderate double has few digits before its point and a small exponent, so reading
it gives a finite double again.
-/
import ConsoleShell.Number.Decimal
import ConsoleShell.Number.DoubleReader
import ConsoleShell.Proofs.Number.Rounding

namespace ConsoleShell

/-! ### Decimal digits -/

/-- The first digit of a positive number is not zero. -/
lemma head?_toDigits_ne {n : Nat} (h : n ≠ 0) : (Nat.toDigits 10 n).head? ≠ some '0' := by
  induction n using Nat.strong_induction_on with
  | _ n ih =>
    rcases lt_or_ge n 10 with hlt | hge
    · interval_cases n <;> simp_all [Nat.toDigits_of_lt_base]
    · rw [Nat.toDigits_of_base_le (by norm_num) hge,
        List.head?_append_of_ne_nil _ Nat.toDigits_ne_nil]
      exact ih (n / 10) (by omega) (by omega)

namespace Ascii

lemma isDigit_iff {c : UInt8} : isDigit c = true ↔ 48 ≤ c.toNat ∧ c.toNat ≤ 57 := by
  simp [isDigit, UInt8.le_iff_toNat_le]

lemma beq_of_isDigit {c x : UInt8} (hc : isDigit c = true) (hx : isDigit x = false) :
    (c == x) = false :=
  beq_false_of_ne fun h => by rw [h, hx] at hc; cases hc

lemma digitValue?_of_isDigit {c : UInt8} (h : isDigit c = true) :
    digitValue? c = some (c.toNat - 48) ∧ c.toNat - 48 < 10 := by
  refine ⟨by rw [digitValue?, if_pos h], ?_⟩
  rw [isDigit_iff] at h
  omega

lemma isDigit_of_charIsDigit {c : Char} (h : c.isDigit = true) :
    isDigit c.val.toUInt8 = true ∧ 48 ≤ c.toNat ∧ c.toNat < 58 := by
  simp only [Char.isDigit, Bool.and_eq_true, decide_eq_true_eq, UInt32.le_iff_toNat_le] at h
  have hnat : c.toNat = c.val.toNat := rfl
  have hlow : '0'.val.toNat = 48 := rfl
  have hhigh : '9'.val.toNat = 57 := rfl
  rw [isDigit_iff, UInt32.toNat_toUInt8]
  omega

end Ascii

namespace Bytes

lemma isDigit_ofNat (n : Nat) : ∀ c ∈ ofNat n, Ascii.isDigit c = true := by
  intro c hc
  obtain ⟨d, hd, rfl⟩ := List.mem_map.1 hc
  exact (Ascii.isDigit_of_charIsDigit (Nat.isDigit_of_mem_toDigits (by norm_num) le_rfl hd)).1

lemma ofNat_ne_nil (n : Nat) : ofNat n ≠ [] := by
  simp [ofNat, ofNatBase, Nat.toDigits_ne_nil]

lemma length_ofNat_le {n k : Nat} (h : n < 10 ^ k) (hk : 0 < k) : (ofNat n).length ≤ k := by
  rw [ofNat, ofNatBase, List.length_map]
  exact (Nat.length_toDigits_le_iff (by norm_num) hk).2 h

end Bytes

namespace Decimal

/-- The digits are below ten and do not begin with zero, and zero has its point in front. -/
structure Proper (x : Decimal) : Prop where
  digits_lt : ∀ d ∈ x.digits, d < 10
  head_ne : x.digits.head? ≠ some 0
  point_of_nil : x.digits = [] → x.point = 0

lemma proper_zero : zero.Proper := ⟨by simp [zero], by simp [zero], fun _ => rfl⟩

lemma isPrefix_stripZeros (ds : List Nat) : stripZeros ds <+: ds := List.rdropWhile_prefix _ _

/-- Zeros at the end are not at the front. -/
lemma head?_stripZeros {ds : List Nat} (h : ds.head? ≠ some 0) :
    (stripZeros ds).head? = ds.head? := by
  cases ds with
  | nil => rfl
  | cons d ds =>
    obtain ⟨t, ht⟩ := isPrefix_stripZeros (d :: ds)
    cases hs : stripZeros (d :: ds) with
    | nil =>
      have hzero : (d == 0) = true :=
        List.rdropWhile_eq_nil_iff.1 hs d List.mem_cons_self
      simp_all
    | cons d' s =>
      rw [hs] at ht
      simpa using (List.cons.inj ht).1

lemma proper_ofScaled (n : Nat) (e : Int) : (ofScaled n e).Proper := by
  rw [ofScaled]
  split_ifs with hn
  · exact proper_zero
  · set ds := (Nat.toDigits 10 n).map fun c => c.toNat - 48 with hds
    have hdigits : ∀ c ∈ Nat.toDigits 10 n, c.isDigit = true := fun c hc =>
      Nat.isDigit_of_mem_toDigits (by norm_num) le_rfl hc
    have hlt : ∀ d ∈ ds, d < 10 := by
      intro d hd
      obtain ⟨c, hc, rfl⟩ := List.mem_map.1 hd
      have hc := Ascii.isDigit_of_charIsDigit (hdigits c hc)
      omega
    have hhead : ds.head? ≠ some 0 := by
      rw [hds, List.head?_map]
      intro h
      obtain ⟨c, hc, hzero⟩ := Option.map_eq_some_iff.1 h
      have hc' := (Ascii.isDigit_of_charIsDigit (hdigits c (List.mem_of_head? hc))).2
      obtain rfl : c = '0' := Char.toNat_inj.1 (by rw [show '0'.toNat = 48 from rfl]; omega)
      exact head?_toDigits_ne hn hc
    have hstrip := head?_stripZeros hhead
    refine ⟨fun d hd => hlt d ((isPrefix_stripZeros ds).subset hd), hstrip ▸ hhead, fun hnil => ?_⟩
    have hne : ds ≠ [] := by simp [hds, Nat.toDigits_ne_nil]
    rw [show stripZeros ds = [] from hnil, List.head?_nil] at hstrip
    exact absurd (List.head?_eq_none_iff.1 hstrip.symm) hne

lemma point_ofScaled_le {n k : Nat} (h : n < 10 ^ k) (hk : 0 < k) (e : Int) :
    (ofScaled n e).point ≤ max (k + e) 0 := by
  rw [ofScaled]
  split_ifs
  · exact le_max_right _ _
  · have hlength := (Nat.length_toDigits_le_iff (by norm_num) hk).2 h
    simp only [List.length_map]
    omega

/-! ### The shortest digits of a moderate number -/

variable {num den : Nat}

lemma climb_le (num den steps : Nat) (e : Int) : climb num den steps e ≤ e + steps := by
  induction steps generalizing e with
  | zero => simp [climb]
  | succ steps ih =>
    rw [climb]
    have := ih (e + 1)
    split_ifs
    · omega
    · push_cast
      omega

lemma magnitude_le (h : num < 2 ^ 62 * den) : magnitude num den ≤ 22 := by
  have hclimb := climb_le num den 5 (((num.log2 : Int) - den.log2 - 1) * 30103 / 100000 - 1)
  have hlog := Double.log2_le_of_lt h
  rw [magnitude]
  omega

/-- The digits of a moderate number before its point, wherever it is rounded. -/
lemma point_rounded_le {q : Nat} {e : Int} (h : num < 2 ^ 62 * den) (he : e ≤ 22)
    (hq : q ≤ (scale10 num den e).1 / (scale10 num den e).2 + 1) :
    (ofScaled q e).point ≤ 41 := by
  have hquotient (k : Nat) : num * 10 ^ k / den < 2 ^ 62 * 10 ^ k := by
    refine Nat.div_lt_of_lt_mul ?_
    calc num * 10 ^ k < 2 ^ 62 * den * 10 ^ k := by gcongr
      _ = den * (2 ^ 62 * 10 ^ k) := by ring
  rw [scale10] at hq
  split_ifs at hq with hpos
  · have hle : num / (den * 10 ^ e.toNat) ≤ num / den :=
      Nat.div_le_div_left (Nat.le_mul_of_pos_right _ (by positivity)) (by
        rcases Nat.eq_zero_or_pos den with rfl | hden
        · simp at h
        · exact hden)
    have hlt := hquotient 0
    simp only [pow_zero, mul_one] at hlt
    refine (point_ofScaled_le (k := 19) ?_ (by norm_num) e).trans (by omega)
    calc q ≤ num / (den * 10 ^ e.toNat) + 1 := hq
      _ ≤ 2 ^ 62 := by omega
      _ < 10 ^ 19 := by norm_num
  · have hlt := hquotient (-e).toNat
    refine (point_ofScaled_le (k := 19 + (-e).toNat) ?_ (by omega) e).trans (by omega)
    calc q ≤ num * 10 ^ (-e).toNat / den + 1 := hq
      _ ≤ 2 ^ 62 * 10 ^ (-e).toNat := hlt
      _ < 10 ^ 19 * 10 ^ (-e).toNat := by gcongr; norm_num
      _ = 10 ^ (19 + (-e).toNat) := (pow_add ..).symm

lemma proper_shortest {i : Interval} (h : i.mid < 2 ^ 62 * i.den) {magnitude : Int}
    (hmagnitude : magnitude ≤ 22) (digits fuel : Nat) :
    (i.shortest magnitude digits fuel).Proper ∧ (i.shortest magnitude digits fuel).point ≤ 41 := by
  induction fuel generalizing digits with
  | zero =>
    rw [Interval.shortest, roundTo]
    exact ⟨proper_ofScaled _ _, point_rounded_le h (by omega) (Double.roundDiv_le _ _)⟩
  | succ fuel ih =>
    have hcandidate : ∀ q, q ≤ (scale10 i.mid i.den (magnitude - digits)).1 /
        (scale10 i.mid i.den (magnitude - digits)).2 + 1 →
        (ofScaled q (magnitude - digits)).Proper ∧ (ofScaled q (magnitude - digits)).point ≤ 41 :=
      fun q hq => ⟨proper_ofScaled _ _, point_rounded_le h (by omega) hq⟩
    rw [Interval.shortest]
    dsimp only
    split_ifs
    · exact hcandidate _ (Double.roundDiv_le _ _)
    · exact hcandidate _ le_rfl
    · exact ih (digits + 1)
    · exact hcandidate _ (Nat.le_succ _)
    · exact ih (digits + 1)

/-- The digits of a double below `2 ^ 62`. -/
lemma proper_shortestOf {m : Nat} {e : Int} (hm : m < 2 ^ 53) (he : e ≤ 9) :
    (shortest m e).Proper ∧ (shortest m e).point ≤ 41 := by
  rw [shortest, shortestOf]
  split_ifs
  · exact ⟨proper_zero, by simp [zero]⟩
  · have hmid : (interval 52 (-1074) m e).mid < 2 ^ 62 * (interval 52 (-1074) m e).den := by
      rw [interval]
      dsimp only
      split_ifs with hpos
      · have hpow : 2 ^ e.toNat ≤ 2 ^ 9 := Nat.pow_le_pow_right two_pos (by omega)
        calc 4 * m * 2 ^ e.toNat ≤ 4 * m * 2 ^ 9 := by gcongr
          _ < 2 ^ 62 * 4 := by omega
      · have hpow : 1 ≤ 2 ^ (-e).toNat := Nat.one_le_two_pow
        calc 4 * m * 1 < 2 ^ 62 * (4 * 1) := by omega
          _ ≤ 2 ^ 62 * (4 * 2 ^ (-e).toNat) := by gcongr
    exact proper_shortest hmid (magnitude_le hmid) 1 17

end Decimal

/-! ### The parts of a number -/

/-- A number as it is written, in parts. -/
structure NumberText where
  negative : Bool := false
  whole : Bytes
  /-- The digits after the point, which is left out if there are none. -/
  places : Bytes := []
  /-- The digits of the exponent and whether it is negative, if there is one. -/
  exponent : Option (Bool × Bytes) := none

namespace NumberText

/-- The sign. -/
def signBytes (t : NumberText) : Bytes := if t.negative then [Ascii.minus] else []

/-- The point and the digits after it. -/
def fractionBytes (t : NumberText) : Bytes :=
  if t.places.isEmpty then [] else Ascii.dot :: t.places

/-- The exponent with its letter and sign. -/
def exponentBytes (t : NumberText) : Bytes :=
  match t.exponent with
  | none => []
  | some (negative, ds) => 101 :: (if negative then Ascii.minus else Ascii.plus) :: ds

/-- The text of a number. -/
def bytes (t : NumberText) : Bytes :=
  t.signBytes ++ t.whole ++ t.fractionBytes ++ t.exponentBytes

/-- The parts are digits, and the number has no zero in front that it could do without. -/
structure Valid (t : NumberText) : Prop where
  whole_ne : t.whole ≠ []
  whole_digits : ∀ c ∈ t.whole, Ascii.isDigit c = true
  whole_zero : t.whole.head? = some 48 → t.whole = [48]
  places_digits : ∀ c ∈ t.places, Ascii.isDigit c = true
  exponent_ne : ∀ p ∈ t.exponent, p.2 ≠ []
  exponent_digits : ∀ p ∈ t.exponent, ∀ c ∈ p.2, Ascii.isDigit c = true

/-- The number is far below the largest double. -/
structure Small (t : NumberText) : Prop where
  whole_length : t.whole.length ≤ 21
  exponent_length : ∀ ds, t.exponent = some (false, ds) → ds.length ≤ 2

/-- The digits of an integer are a number. -/
lemma valid_ofNat (negative : Bool) (n : Nat) :
    Valid { negative, whole := Bytes.ofNat n } := by
  refine ⟨Bytes.ofNat_ne_nil n, Bytes.isDigit_ofNat n, fun hzero => ?_, by simp, nofun, nofun⟩
  rcases eq_or_ne n 0 with rfl | hne
  · rfl
  · refine absurd ?_ (head?_toDigits_ne hne)
    obtain ⟨c, hc, hcode⟩ := Option.map_eq_some_iff.1 (List.head?_map.symm.trans hzero)
    have hdigit := Ascii.isDigit_of_charIsDigit
      (Nat.isDigit_of_mem_toDigits (by norm_num) le_rfl (List.mem_of_head? hc))
    have hnat := congrArg UInt8.toNat hcode
    rw [UInt32.toNat_toUInt8, show c.val.toNat = c.toNat from rfl,
      Nat.mod_eq_of_lt (by omega)] at hnat
    rw [hc, show c = '0' from Char.toNat_inj.1 hnat]

end NumberText

namespace Decimal

variable {x : Decimal}

lemma isDigit_ofDigit {d : Nat} (h : d < 10) : Ascii.isDigit (Ascii.ofDigit d) = true := by
  interval_cases d <;> rfl

lemma Proper.isDigit_digitAt (h : x.Proper) (i : Int) : Ascii.isDigit (x.digitAt i) = true := by
  rw [digitAt]
  split_ifs
  · refine isDigit_ofDigit ?_
    rw [List.getD_eq_getElem?_getD]
    cases hget : x.digits[i.toNat]? with
    | none => simp
    | some d => exact h.digits_lt d (List.mem_of_getElem? hget)
  · rfl

/-- The digits at a range of positions. -/
lemma Proper.isDigit_map (h : x.Proper) (f : Nat → Int) (n : Nat) :
    ∀ c ∈ (List.range n).map fun i => x.digitAt (f i), Ascii.isDigit c = true := by
  intro c hc
  obtain ⟨i, -, rfl⟩ := List.mem_map.1 hc
  exact h.isDigit_digitAt (f i)

lemma Proper.digitAt_zero_ne (h : x.Proper) (hpos : 0 < x.point) : x.digitAt 0 ≠ 48 := by
  cases hdigits : x.digits with
  | nil => rw [h.point_of_nil hdigits] at hpos; cases hpos
  | cons d ds =>
    have hne : d ≠ 0 := by
      rintro rfl
      exact h.head_ne (by rw [hdigits]; rfl)
    have hlt : d < 10 := h.digits_lt d (by rw [hdigits]; exact List.mem_cons_self)
    have hat : x.digitAt 0 = Ascii.ofDigit d := by simp [digitAt, hdigits]
    rw [hat]
    interval_cases d <;> first | exact absurd rfl hne | decide

/-- The positional layout of a number with few digits before its point. -/
lemma Proper.exists_positional (h : x.Proper) (hpoint : x.point ≤ 21) (count : Nat)
    (negative : Bool) :
    ∃ t : NumberText, t.Valid ∧ t.Small ∧ t.negative = negative ∧
      t.bytes = t.signBytes ++ x.positional count := by
  let places := (List.range count).map fun (i : Nat) => x.digitAt (x.point + i)
  by_cases hpos : 0 < x.point
  · let whole := (List.range x.point.toNat).map fun (i : Nat) => x.digitAt i
    have hhead : whole.head? = some (x.digitAt 0) := by
      obtain ⟨n, hn⟩ : ∃ n, x.point.toNat = n + 1 := ⟨x.point.toNat - 1, by omega⟩
      change ((List.range x.point.toNat).map fun (i : Nat) => x.digitAt i).head? = _
      rw [hn, List.range_succ_eq_map]
      rfl
    refine ⟨{ negative, whole, places }, ⟨?_, ?_, ?_, ?_, nofun, nofun⟩, ⟨?_, nofun⟩, rfl, ?_⟩
    · intro hnil
      rw [show whole = [] from hnil] at hhead
      cases hhead
    · exact h.isDigit_map _ _
    · intro hzero
      exact absurd (Option.some.inj (hhead.symm.trans hzero)) (h.digitAt_zero_ne hpos)
    · exact h.isDigit_map _ _
    · simp only [whole, List.length_map, List.length_range]
      omega
    · by_cases hcount : count = 0 <;>
        simp [NumberText.bytes, NumberText.fractionBytes, NumberText.exponentBytes, positional,
          hpos, hcount, whole, places]
  · refine ⟨{ negative, whole := [48], places }, ⟨by simp, ?_, fun _ => rfl, ?_, nofun, nofun⟩,
      ⟨by simp, nofun⟩, rfl, ?_⟩
    · simp [Ascii.isDigit]
    · exact h.isDigit_map _ _
    · by_cases hcount : count = 0 <;>
        simp [NumberText.bytes, NumberText.fractionBytes, NumberText.exponentBytes, positional,
          hpos, hcount, places]

/-- The scientific layout of a number with a small exponent. -/
lemma Proper.exists_scientific (h : x.Proper) (hpoint : x.point ≤ 41) (count : Nat)
    (negative : Bool) :
    ∃ t : NumberText, t.Valid ∧ t.Small ∧ t.negative = negative ∧
      t.bytes = t.signBytes ++ x.scientific count 1 := by
  let places := (List.range count).map fun (i : Nat) => x.digitAt (i + 1)
  let e : Int := if x.digits.isEmpty then 0 else x.point - 1
  have hpadded : Bytes.ofNatPadded 1 e.natAbs = Bytes.ofNat e.natAbs := by
    have hlength := List.length_pos_iff.2 (Bytes.ofNat_ne_nil e.natAbs)
    simp [Bytes.ofNatPadded, Bytes.padStart, Bytes.replicate, Nat.sub_eq_zero_of_le hlength]
  refine ⟨{ negative, whole := [x.digitAt 0], places,
            exponent := some (e < 0, Bytes.ofNat e.natAbs) },
    ⟨by simp, ?_, ?_, ?_, ?_, ?_⟩, ⟨by simp, ?_⟩, rfl, ?_⟩
  · simpa using h.isDigit_digitAt 0
  · intro hzero
    simpa using hzero
  · exact h.isDigit_map _ _
  · rintro p hp
    obtain rfl := Option.mem_some_iff.1 hp
    exact Bytes.ofNat_ne_nil _
  · rintro p hp
    obtain rfl := Option.mem_some_iff.1 hp
    exact Bytes.isDigit_ofNat _
  · rintro ds hds
    obtain ⟨hsign, rfl⟩ := Prod.mk.inj (Option.some.inj hds)
    refine Bytes.length_ofNat_le ?_ (by norm_num)
    have hnonneg : 0 ≤ e := by simpa using hsign
    have hle : e ≤ 40 := by
      simp only [e]
      split_ifs <;> omega
    omega
  · have hmark : (if e < 0 then ("e-" : Bytes) else "e+") =
        [101, if e < 0 then Ascii.minus else Ascii.plus] := by
      split_ifs <;> rfl
    rw [scientific, hpadded, hmark]
    by_cases hcount : count = 0 <;>
      simp [NumberText.bytes, NumberText.fractionBytes, NumberText.exponentBytes, hcount, places]

end Decimal

/-! ### The text of a moderate double -/

namespace Double

/-- The layout of a double with a small exponent. -/
lemma exists_layout (negative : Bool) {m : Nat} {e : Int} (hm : m < 2 ^ 53) (he : e ≤ 9) :
    let d := Decimal.shortest m e
    ∃ t : NumberText, t.Valid ∧ t.Small ∧ t.negative = negative ∧
      t.bytes = t.signBytes ++
        if m ≠ 0 && (d.point ≤ -6 || 21 < d.point) then d.scientific (d.digits.length - 1) 1
        else d.positional (max ((d.digits.length : Int) - d.point) 0).toNat := by
  obtain ⟨hproper, hpoint⟩ := Decimal.proper_shortestOf hm he
  intro d
  split_ifs with hscientific
  · exact hproper.exists_scientific hpoint _ negative
  · refine hproper.exists_positional ?_ _ negative
    rcases eq_or_ne m 0 with rfl | hne
    · simp [Decimal.shortest, Decimal.shortestOf, Decimal.zero]
    · have hbounds : -6 < d.point ∧ d.point ≤ 21 := by simpa [hne] using hscientific
      exact hbounds.2

/-- A double with a small exponent is written as a number that is far from the largest. -/
lemma Bounded.exists_toJson {x : Double} (h : x.Bounded 9) :
    ∃ t : NumberText, t.Valid ∧ t.Small ∧ x.toJson = t.bytes := by
  obtain ⟨negative, m, e, hvalue, hm, he⟩ := h
  obtain ⟨t, hvalid, hsmall, hnegative, hbytes⟩ := exists_layout negative hm he
  refine ⟨t, hvalid, hsmall, ?_⟩
  rw [hbytes, NumberText.signBytes, hnegative, toJson, format, hvalue]
  cases negative <;> rfl

/-! ### Reading a number -/

namespace Mantissa

/-- Digits are taken one by one; the value is bounded by their number. -/
lemma scan_digits {ds : Bytes} (h : ∀ c ∈ ds, Ascii.isDigit c = true) {m : Mantissa} {k : Nat}
    (hm : m.value < 10 ^ k) (s : Bytes) :
    ∃ v < 10 ^ (k + ds.length), scan 10 m (ds ++ s) =
      scan 10 { m with
        value := v
        places := if m.point then m.places + ds.length else m.places
        digits := m.digits || !ds.isEmpty } s := by
  induction ds generalizing m k with
  | nil => exact ⟨m.value, hm, by simp⟩
  | cons c ds ih =>
    obtain ⟨hc, hds⟩ := List.forall_mem_cons.1 h
    obtain ⟨hdigit, hlt⟩ := Ascii.digitValue?_of_isDigit hc
    have hvalue : m.value * 10 + (c.toNat - 48) < 10 ^ (k + 1) := by
      rw [pow_succ]
      omega
    obtain ⟨v, hv, hscan⟩ := ih hds (m := { m with
      value := m.value * 10 + (c.toNat - 48)
      places := if m.point then m.places + 1 else m.places
      digits := true }) hvalue
    refine ⟨v, by rwa [List.length_cons, add_comm ds.length, ← add_assoc], ?_⟩
    rw [List.cons_append, scan, Ascii.beq_of_isDigit hc rfl, Ascii.beq_of_isDigit hc rfl, hdigit]
    simp only [Bool.false_eq_true, if_false, if_pos hlt]
    rw [hscan]
    cases m.point <;> simp [Nat.add_assoc, Nat.add_comm 1]

/-- An exponent ends the digits. -/
lemma scan_exponentBytes (m : Mantissa) (t : NumberText) :
    scan 10 m t.exponentBytes = (m, t.exponentBytes) := by
  rw [NumberText.exponentBytes]
  cases t.exponent <;> rfl

/-- The digits of a number are taken, and its exponent is left. -/
lemma scan_text {t : NumberText} (ht : t.Valid) :
    ∃ v < 10 ^ (t.whole.length + t.places.length),
      scan 10 {} (t.whole ++ t.fractionBytes ++ t.exponentBytes) =
        ({ value := v, places := t.places.length, point := !t.places.isEmpty, digits := true },
          t.exponentBytes) := by
  have hne : t.whole.isEmpty = false := by simpa using ht.whole_ne
  obtain ⟨v, hv, hwhole⟩ := scan_digits ht.whole_digits (m := {}) (k := 0) (by simp)
    (t.fractionBytes ++ t.exponentBytes)
  rw [zero_add] at hv
  rw [List.append_assoc, hwhole, NumberText.fractionBytes]
  cases hplaces : t.places.isEmpty with
  | true =>
    rw [List.isEmpty_iff.1 hplaces]
    exact ⟨v, hv, by simp [hne, scan_exponentBytes]⟩
  | false =>
    obtain ⟨w, hw, hrest⟩ := scan_digits ht.places_digits
      (m := { value := v, point := true, digits := true }) hv t.exponentBytes
    refine ⟨w, hw, ?_⟩
    have hdot (m : Mantissa) (hm : m.point = false) (s : Bytes) :
        scan 10 m (Ascii.dot :: s) = scan 10 { m with point := true } s := by
      rw [scan, hm]
      rfl
    simp only [Bool.false_eq_true, if_false, List.cons_append]
    rw [hdot _ rfl, hne]
    simpa [scan_exponentBytes] using hrest

end Mantissa

lemma exponentDigits_digits {ds : Bytes} (h : ∀ c ∈ ds, Ascii.isDigit c = true) {n k : Nat}
    (hn : n < 10 ^ k) :
    ∃ v < 10 ^ (k + ds.length), exponentDigits n false ds = (v, false, []) := by
  induction ds generalizing n k with
  | nil => exact ⟨n, hn, rfl⟩
  | cons c ds ih =>
    obtain ⟨hc, hds⟩ := List.forall_mem_cons.1 h
    have hlt := (Ascii.digitValue?_of_isDigit hc).2
    have hnext : (if n < 10000 then n * 10 + (c.toNat - 48) else n) < 10 ^ (k + 1) := by
      rw [pow_succ]
      split_ifs <;> omega
    obtain ⟨v, hv, hrest⟩ := ih hds hnext
    exact ⟨v, by rwa [List.length_cons, add_comm ds.length, ← add_assoc],
      by rw [exponentDigits, if_pos hc, hrest]⟩

/-- The exponent of a small number is below a hundred. -/
lemma exponent?_small {t : NumberText} (ht : t.Valid) (hsmall : t.Small) {negative : Bool}
    {ds : Bytes} (h : t.exponent = some (negative, ds)) :
    ∃ e < 100, exponent? ((if negative then Ascii.minus else Ascii.plus) :: ds) =
      some (e, false, []) := by
  have hmem : (negative, ds) ∈ t.exponent := h
  obtain ⟨v, hv, hdigits⟩ : ∃ v < 10 ^ ds.length, exponentDigits 0 false ds = (v, false, []) := by
    simpa using exponentDigits_digits (ht.exponent_digits _ hmem) (n := 0) (k := 0) (by simp)
  have hsign : Numeral.sign ((if negative then Ascii.minus else Ascii.plus) :: ds) =
      (negative, ds) := by
    cases negative <;> rfl
  refine ⟨if negative then -(v : Int) else v, ?_, ?_⟩
  · cases negative with
    | true => simp; omega
    | false =>
      have hle : 10 ^ ds.length ≤ 10 ^ 2 :=
        Nat.pow_le_pow_right (by norm_num) (hsmall.exponent_length ds h)
      simp only [Bool.false_eq_true, if_false]
      omega
  · rw [exponent?, hsign]
    cases hds : ds with
    | nil => exact absurd hds (ht.exponent_ne _ hmem)
    | cons c ds' =>
      have hc : Ascii.isDigit c = true := ht.exponent_digits _ hmem c (by simp [hds])
      simp only [if_pos hc, ← hds, hdigits]

/-- A decimal number that is far from the largest double is rounded to a finite one. -/
lemma isInfinite_ofDecimal (negative : Bool) {m k : Nat} {e : Int} (hm : m < 10 ^ k)
    (hk : 0 < k) (he : k + e ≤ 120) : (ofDecimal negative m e).isInfinite = false := by
  have hlength : (Nat.toDigits 10 m).length ≤ k :=
    (Nat.length_toDigits_le_iff (by norm_num) hk).2 hm
  have hlt : m * 10 ^ e.toNat < 2 ^ (4 * 120) * 10 ^ (-e).toNat := by
    calc m * 10 ^ e.toNat < 10 ^ k * 10 ^ e.toNat := by gcongr
      _ = 10 ^ (k + e.toNat) := (pow_add ..).symm
      _ ≤ 10 ^ (120 + (-e).toNat) := Nat.pow_le_pow_right (by norm_num) (by omega)
      _ = 10 ^ 120 * 10 ^ (-e).toNat := pow_add ..
      _ ≤ (2 ^ 4) ^ 120 * 10 ^ (-e).toNat := by gcongr; norm_num
      _ = 2 ^ (4 * 120) * 10 ^ (-e).toNat := by rw [← pow_mul]
  rw [ofDecimal]
  rw [if_neg (c := 400 < _) (by omega), ofScaled]
  split_ifs with hzero hpos
  · exact (bounded_withSign negative (by norm_num)).isInfinite
  · rw [show (-e).toNat = 0 by omega] at hlt
    exact (bounded_ofRatio (j := 4 * 120) negative hlt (by norm_num)).isInfinite
  · rw [show e.toNat = 0 by omega, pow_zero, mul_one] at hlt
    exact (bounded_ofRatio (j := 4 * 120) negative hlt (by norm_num)).isInfinite

/-- After the digits before the point comes nothing, the point or the exponent. -/
lemma rest_cases (t : NumberText) :
    t.fractionBytes ++ t.exponentBytes = [] ∨
      ∃ c s, t.fractionBytes ++ t.exponentBytes = c :: s ∧ (c = Ascii.dot ∨ c = 101) := by
  rw [NumberText.fractionBytes, NumberText.exponentBytes]
  cases t.places.isEmpty with
  | false => exact .inr ⟨_, _, rfl, .inl rfl⟩
  | true =>
    cases t.exponent with
    | none => exact .inl rfl
    | some p => exact .inr ⟨_, _, rfl, .inr rfl⟩

lemma finite?_decimal {s r rest : Bytes} {negative : Bool} {m : Mantissa} {e : Int}
    (hsign : Numeral.sign s = (negative, r))
    (hhex : isHexadecimal r = false)
    (hscan : Mantissa.scan 10 {} r = (m, rest)) (hdigits : m.digits = true)
    (hunderscores : m.underscores = false)
    (hexponent : rest = [] ∧ e = 0 ∨ ∃ t, rest = 101 :: t ∧ exponent? t = some (e, false, [])) :
    finite? s = some (ofDecimal negative m.value (e - m.places)) := by
  rw [finite?, hsign]
  simp only [hhex, hscan]
  rcases hexponent with ⟨rfl, rfl⟩ | ⟨t, rfl, ht⟩
  · simp [hdigits, hunderscores]
  · have hletter : Ascii.toLower 101 == 101 := rfl
    simp [hdigits, hunderscores, hletter, ht]

/-- A number without zeros in front is not hexadecimal. -/
lemma isHexadecimal_text {t : NumberText} (ht : t.Valid) :
    isHexadecimal (t.whole ++ t.fractionBytes ++ t.exponentBytes) = false := by
  cases hr : t.whole ++ t.fractionBytes ++ t.exponentBytes with
  | nil => rfl
  | cons c s =>
    rcases eq_or_ne c 48 with rfl | hne
    · have hhead : t.whole.head? = some 48 := by
        rw [List.append_assoc] at hr
        rw [← List.head?_append_of_ne_nil t.whole ht.whole_ne, hr]
        rfl
      rw [ht.whole_zero hhead, List.append_assoc, List.singleton_append] at hr
      obtain rfl := (List.cons.inj hr).2
      rcases rest_cases t with hnil | ⟨x, s, hs, rfl | rfl⟩
      · rw [hnil]
        rfl
      all_goals
        rw [hs]
        cases s <;> rfl
    · simp [isHexadecimal, hne]

/-- A small number is read as a finite double. -/
lemma finite?_small {t : NumberText} (ht : t.Valid) (hsmall : t.Small) :
    ∃ x, finite? t.bytes = some x ∧ x.isInfinite = false := by
  obtain ⟨c, ds, hwhole⟩ := List.exists_cons_of_ne_nil ht.whole_ne
  have hc : Ascii.isDigit c = true := ht.whole_digits c (by simp [hwhole])
  have hsign : Numeral.sign t.bytes =
      (t.negative, t.whole ++ t.fractionBytes ++ t.exponentBytes) := by
    rw [NumberText.bytes, NumberText.signBytes]
    cases t.negative with
    | true => simp [Numeral.sign, Ascii.minus, Ascii.plus]
    | false =>
      have hplus := Ascii.beq_of_isDigit hc (x := Ascii.plus) rfl
      have hminus := Ascii.beq_of_isDigit hc (x := Ascii.minus) rfl
      simp [hwhole, Numeral.sign, hplus, hminus]
  obtain ⟨v, hv, hscan⟩ := Mantissa.scan_text ht
  have hpos := List.length_pos_iff.2 ht.whole_ne
  have hwholeLength := hsmall.whole_length
  have hfinite {e : Int} (he : e < 100)
      (hexponent : t.exponentBytes = [] ∧ e = 0 ∨
        ∃ s, t.exponentBytes = 101 :: s ∧ exponent? s = some (e, false, [])) :
      ∃ x, finite? t.bytes = some x ∧ x.isInfinite = false :=
    ⟨_, finite?_decimal hsign (isHexadecimal_text ht) hscan rfl rfl hexponent,
      isInfinite_ofDecimal _ hv (by omega) (by push_cast; omega)⟩
  cases hexponent : t.exponent with
  | none => exact hfinite (by norm_num) (.inl ⟨by rw [NumberText.exponentBytes, hexponent], rfl⟩)
  | some p =>
    obtain ⟨e, he, hread⟩ := exponent?_small ht hsmall hexponent
    exact hfinite he (.inr ⟨_, by rw [NumberText.exponentBytes, hexponent], hread⟩)

/-- The text of a moderate double is in range. -/
lemma parse_small {t : NumberText} (ht : t.Valid) (hsmall : t.Small) :
    (parse t.bytes).toOption.isSome = true := by
  obtain ⟨x, hfinite, hx⟩ := finite?_small ht hsmall
  rw [parse, hfinite]
  cases special? t.bytes with
  | some y => rfl
  | none =>
    simp only [hx]
    rfl

end Double

end ConsoleShell
