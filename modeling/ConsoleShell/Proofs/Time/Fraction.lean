/-
Fractions of the second.

A fraction is printed with a fixed number of digits.  They are the number of whole units next to
the nanoseconds, a half going up, except that a number that would make the next second is replaced
by the one before it.  So the text has always as many digits as it should, and a later instant of
the same second never prints less.
-/
import ConsoleShell.Proofs.Number.Literal
import ConsoleShell.Time.Format

namespace ConsoleShell

/-! ### The numbers that decimal digits denote -/

namespace Numeral

/-- The number that decimal digits denote. -/
def decimalValue (s : Bytes) : Nat := ofDigits 10 (s.map fun c => c.toNat - 48)

@[simp]
lemma decimalValue_nil : decimalValue [] = 0 := rfl

lemma decimalValue_append (s t : Bytes) :
    decimalValue (s ++ t) = decimalValue s * 10 ^ t.length + decimalValue t := by
  rw [decimalValue, decimalValue, decimalValue, ofDigits, ofDigits, ofDigits, List.map_append,
    List.reverse_append, Nat.ofDigits_append, List.length_reverse, List.length_map]
  ring

lemma decimalValue_singleton (c : UInt8) : decimalValue [c] = c.toNat - 48 := by
  simp [decimalValue]

/-- Zeros in front count for nothing. -/
lemma decimalValue_zeros (k : Nat) (s : Bytes) :
    decimalValue (Bytes.replicate k 48 ++ s) = decimalValue s := by
  induction k with
  | zero => rfl
  | succ k ih =>
    have hcons : Bytes.replicate (k + 1) 48 ++ s = [48] ++ (Bytes.replicate k 48 ++ s) := by
      simp [Bytes.replicate, List.replicate_succ]
    rw [hcons, decimalValue_append, decimalValue_singleton, ih]
    simp

lemma decimalValue_ofNat (n : Nat) : decimalValue (Bytes.ofNat n) = n := by
  induction n using Nat.strong_induction_on with
  | _ n ih =>
    have hlast {d : Nat} (hd : d < 10) :
        decimalValue [(Nat.digitChar d).val.toUInt8] = d := by
      interval_cases d <;> rfl
    rcases lt_or_ge n 10 with hlt | hge
    · rw [Bytes.ofNat, Bytes.ofNatBase, Nat.toDigits_of_lt_base hlt]
      exact hlast hlt
    · -- printing puts the last digit behind the digits of the tenth
      have hsplit : Bytes.ofNat n =
          Bytes.ofNat (n / 10) ++ [(Nat.digitChar (n % 10)).val.toUInt8] := by
        rw [Bytes.ofNat, Bytes.ofNatBase, Nat.toDigits_of_base_le (by norm_num) hge,
          List.map_append]
        rfl
      rw [hsplit, decimalValue_append, ih (n / 10) (by omega), hlast (Nat.mod_lt _ (by norm_num)),
        List.length_singleton]
      omega

/-- Digits are determined by their number and by what they denote. -/
lemma eq_of_decimalValue_eq {s t : Bytes} (hs : ∀ c ∈ s, Ascii.isDigit c = true)
    (ht : ∀ c ∈ t, Ascii.isDigit c = true) (hlength : s.length = t.length)
    (hvalue : decimalValue s = decimalValue t) : s = t := by
  have hlt {s : Bytes} (hs : ∀ c ∈ s, Ascii.isDigit c = true) :
      ∀ d ∈ (s.map fun c => c.toNat - 48).reverse, d < 10 := by
    intro d hd
    obtain ⟨c, hc, rfl⟩ := List.mem_map.1 (List.mem_reverse.1 hd)
    exact (Ascii.digitValue?_of_isDigit (hs c hc)).2
  -- of each length there is one list of digits for a number
  have hdigits : s.map (fun c => c.toNat - 48) = t.map fun c => c.toNat - 48 := by
    refine List.reverse_injective ?_
    exact Nat.ofDigits_inj_of_len_eq (by norm_num) (by simpa using hlength) (hlt hs) (hlt ht)
      hvalue
  refine List.ext_getElem hlength fun i hi hi' => ?_
  have hi'' : s[i].toNat - 48 = t[i].toNat - 48 := by
    have hget := congrArg (·[i]?) hdigits
    simpa [hi, hi'] using hget
  have hsi := Ascii.isDigit_iff.1 (hs _ (List.getElem_mem hi))
  have hti := Ascii.isDigit_iff.1 (ht _ (List.getElem_mem hi'))
  exact UInt8.toNat_inj.1 (by omega)

lemma decimalValue_nines (k : Nat) : decimalValue (Bytes.replicate k 57) = 10 ^ k - 1 := by
  induction k with
  | zero => rfl
  | succ k ih =>
    have hcons : Bytes.replicate (k + 1) 57 = [57] ++ Bytes.replicate k 57 := by
      simp [Bytes.replicate, List.replicate_succ]
    have hpos : 0 < 10 ^ k := by positivity
    have hnine : decimalValue [57] = 9 := rfl
    rw [hcons, decimalValue_append, hnine, ih, pow_succ]
    simp only [Bytes.replicate, List.length_replicate]
    omega

end Numeral

namespace Bytes

open Numeral (decimalValue)

lemma isDigit_ofNatPadded (k n : Nat) : ∀ c ∈ ofNatPadded k n, Ascii.isDigit c = true := by
  intro c hc
  rcases List.mem_append.1 hc with hc | hc
  · rw [List.eq_of_mem_replicate hc]
    rfl
  · exact isDigit_ofNat n c hc

lemma length_ofNatPadded {k n : Nat} (hk : 0 < k) (h : n < 10 ^ k) :
    (ofNatPadded k n).length = k := by
  have hle := length_ofNat_le h hk
  rw [ofNatPadded, padStart, List.length_append, replicate, List.length_replicate]
  omega

lemma decimalValue_ofNatPadded (k n : Nat) : decimalValue (ofNatPadded k n) = n := by
  rw [ofNatPadded, padStart, Numeral.decimalValue_zeros, Numeral.decimalValue_ofNat]

end Bytes

/-! ### Rounding -/

namespace TimeFormat

open Numeral (decimalValue)

variable {width : Nat}

/-- The nanoseconds that the last digit of a fraction counts. -/
def unit (width : Nat) : Nat := 10 ^ (maxDigits - width)

lemma unit_pos (width : Nat) : 0 < unit width := by
  rw [unit]
  positivity

lemma pow_mul_unit (h : width ≤ maxDigits) : 10 ^ width * unit width = 10 ^ maxDigits := by
  rw [unit, ← pow_add, Nat.add_sub_cancel' h]

/-- Holding the rounded nanoseconds below the next second holds the number of units below it. -/
lemma min_div_unit (h : width ≤ maxDigits) (n : Nat) :
    min n 999999999 / unit width = min (n / unit width) (10 ^ width - 1) := by
  have hpos := unit_pos width
  have hmul := pow_mul_unit h
  have hlast : 999999999 / unit width = 10 ^ width - 1 := by
    have hwidth : 0 < 10 ^ width := by positivity
    refine Nat.div_eq_of_lt_le ?_ ?_
    · rw [Nat.sub_mul, hmul, Nat.one_mul, maxDigits]
      omega
    · rw [Nat.sub_add_cancel hwidth, hmul]
      norm_num
  -- division keeps the order, so the smaller number may be chosen after it
  have hmono : Monotone (· / unit width) := fun a b hab => Nat.div_le_div_right hab
  rw [← hlast]
  exact hmono.map_min

lemma fraction_eq (h : width ≤ maxDigits) (nanoseconds : Nat) :
    fraction nanoseconds width = Bytes.ofNatPadded width
      (min ((nanoseconds + unit width / 2) / unit width) (10 ^ width - 1)) := by
  rw [← min_div_unit h]
  rfl

lemma isDigit_fraction (nanoseconds width : Nat) :
    ∀ c ∈ fraction nanoseconds width, Ascii.isDigit c = true :=
  Bytes.isDigit_ofNatPadded _ _

/-- The value of a fraction never makes the next second. -/
lemma value_lt (nanoseconds width : Nat) :
    min ((nanoseconds + unit width / 2) / unit width) (10 ^ width - 1) < 10 ^ width := by
  have hpos : 0 < 10 ^ width := by positivity
  exact lt_of_le_of_lt (min_le_right _ _) (by omega)

lemma length_fraction (hpos : 1 ≤ width) (h : width ≤ maxDigits) (nanoseconds : Nat) :
    (fraction nanoseconds width).length = width := by
  rw [fraction_eq h]
  exact Bytes.length_ofNatPadded hpos (value_lt nanoseconds width)

lemma decimalValue_fraction (h : width ≤ maxDigits) (nanoseconds : Nat) :
    decimalValue (fraction nanoseconds width) =
      min ((nanoseconds + unit width / 2) / unit width) (10 ^ width - 1) := by
  rw [fraction_eq h, Bytes.decimalValue_ofNatPadded]

/-- Rounded up from the half on, a number of units is at most half a unit away. -/
lemma within_half_unit {u : Nat} (hu : 0 < u) (n : Nat) :
    2 * n ≤ 2 * ((n + u / 2) / u * u) + u ∧ 2 * ((n + u / 2) / u * u) ≤ 2 * n + u := by
  have hdiv := Nat.div_add_mod (n + u / 2) u
  have hmod := Nat.mod_lt (n + u / 2) hu
  rw [Nat.mul_comm] at hdiv
  omega

/-- **A fraction is rounded to the nearest, but never into the next second.**  The fraction of a
second in one to nine digits has exactly so many digits.  They denote the number of units nearest
to the nanoseconds, a half going up, or the largest number of that many digits if the nearest one
would make the next second: then they are all nines.  So the value is within half a unit apart from
that case, it never reaches the next second, and it does not decrease within the second. -/
theorem fraction_rounds_to_nearest (nanoseconds : Nat) (hpos : 1 ≤ width) (hwidth : width ≤ 9) :
    let u := 10 ^ (9 - width)
    let nearest := (nanoseconds + u / 2) / u
    let text := fraction nanoseconds width
    (text.length = width ∧ ∀ c ∈ text, Ascii.isDigit c = true) ∧
      decimalValue text = min nearest (10 ^ width - 1) ∧
      (nearest < 10 ^ width → 2 * nanoseconds ≤ 2 * (decimalValue text * u) + u ∧
        2 * (decimalValue text * u) ≤ 2 * nanoseconds + u) ∧
      (10 ^ width ≤ nearest → text = List.replicate width 57) ∧
      decimalValue text * u < 10 ^ 9 ∧
      ∀ later, nanoseconds ≤ later →
        decimalValue text ≤ decimalValue (fraction later width) := by
  intro u nearest text
  have hlength := length_fraction hpos hwidth nanoseconds
  have hdigits := isDigit_fraction nanoseconds width
  have hvalue : decimalValue text = min nearest (10 ^ width - 1) :=
    decimalValue_fraction hwidth nanoseconds
  have hlt : decimalValue text < 10 ^ width := hvalue ▸ value_lt nanoseconds width
  refine ⟨⟨hlength, hdigits⟩, hvalue, fun hbelow => ?_, fun habove => ?_, ?_, fun later hle => ?_⟩
  · have hkept : decimalValue text = nearest := by omega
    rw [hkept]
    exact within_half_unit (unit_pos width) nanoseconds
  · have hclamped : decimalValue text = 10 ^ width - 1 := by omega
    refine Numeral.eq_of_decimalValue_eq hdigits ?_ (by simpa using hlength) ?_
    · intro c hc
      rw [List.eq_of_mem_replicate hc]
      rfl
    · exact hclamped.trans (Numeral.decimalValue_nines width).symm
  · calc decimalValue text * u < 10 ^ width * u := Nat.mul_lt_mul_of_pos_right hlt (unit_pos width)
      _ = 10 ^ 9 := pow_mul_unit hwidth
  · rw [hvalue, decimalValue_fraction hwidth]
    exact min_le_min_right _ (Nat.div_le_div_right (Nat.add_le_add_right hle _))

/-- The last nanosecond of a second in three digits, of which the nearest thousand would be the
next second, and the last one that is rounded without that. -/
theorem fraction_rounds_to_nearest_end_of_second :
    1 ≤ 3 ∧ 3 ≤ 9 ∧ fraction 999999999 3 = [57, 57, 57] ∧
      decimalValue (fraction 999499999 3) = 999 := by
  obtain ⟨-, -, -, hnines, -⟩ := @fraction_rounds_to_nearest 3 999999999 (by decide) (by decide)
  obtain ⟨-, hvalue, -⟩ := @fraction_rounds_to_nearest 3 999499999 (by decide) (by decide)
  exact ⟨by decide, by decide, hnines (by norm_num), hvalue.trans (by norm_num)⟩

end TimeFormat

end ConsoleShell
