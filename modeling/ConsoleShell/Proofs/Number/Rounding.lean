/-
Bounds of rounded numbers.

A ratio of moderate size is rounded to a finite double, and the exponent of the double is
bounded by the size of the ratio.  Products and quotients of moderate doubles are moderate.
-/
import ConsoleShell.Number.Double
import Mathlib

namespace ConsoleShell

namespace Double

/-- The double is finite, and its exponent is at most `k`. -/
def Bounded (x : Double) (k : Int) : Prop :=
  ∃ negative m e, x.value = .finite negative m e ∧ m < 2 ^ 53 ∧ e ≤ k

variable {num den : Nat}

lemma Bounded.mono {x : Double} {k l : Int} (h : x.Bounded k) (hkl : k ≤ l) : x.Bounded l := by
  obtain ⟨negative, m, e, hvalue, hm, he⟩ := h
  exact ⟨negative, m, e, hvalue, hm, he.trans hkl⟩

lemma Bounded.isInfinite {x : Double} {k : Int} (h : x.Bounded k) : x.isInfinite = false := by
  obtain ⟨negative, m, e, hvalue, -, -⟩ := h
  rw [Double.isInfinite, hvalue]

/-- The exponent field of a magnitude below that of infinity gives its exponent. -/
lemma bounded_withSign (negative : Bool) {magnitude : Nat} (h : magnitude < 2047 * 2 ^ 52) :
    (withSign negative magnitude).Bounded (max ((magnitude / 2 ^ 52 : Nat) - 1075) (-1074)) := by
  have hbits : (withSign negative magnitude).bits.toNat =
      if negative then 2 ^ 63 + magnitude else magnitude := by
    rw [withSign]
    cases negative <;> simp <;> omega
  have hfield : (withSign negative magnitude).bits.toNat / 2 ^ 52 % 2048 = magnitude / 2 ^ 52 := by
    rw [hbits]
    cases negative <;> simp <;> omega
  have hfraction : (withSign negative magnitude).bits.toNat % 2 ^ 52 < 2 ^ 52 :=
    Nat.mod_lt _ (by norm_num)
  have hlt : magnitude / 2 ^ 52 < 2047 := by omega
  rw [Bounded, value]
  simp only [hfield]
  rw [if_neg hlt.ne]
  split_ifs with hzero
  · exact ⟨_, _, _, rfl, by omega, le_max_right _ _⟩
  · exact ⟨_, _, _, rfl, by omega, le_max_left _ _⟩

lemma roundDiv_le (num den : Nat) : roundDiv num den ≤ num / den + 1 := by
  rw [roundDiv]
  split_ifs <;> omega

/-- Dividing by a power of two leaves a ratio of a size that the logarithms tell. -/
lemma scale_div_lt {e : Int} {j : Nat} (h : (num.log2 : Int) + 1 ≤ j + e + den.log2) :
    (scale num den e).1 / (scale num den e).2 < 2 ^ j := by
  rcases Nat.eq_zero_or_pos den with rfl | hden
  · have hzero : (scale num 0 e).2 = 0 := by
      rw [scale]
      split_ifs <;> simp
    rw [hzero, Nat.div_zero]
    exact Nat.two_pow_pos j
  have hnum : num < 2 ^ (num.log2 + 1) := Nat.lt_log2_self
  have hlog : 2 ^ den.log2 ≤ den := Nat.log2_self_le hden.ne'
  refine Nat.div_lt_of_lt_mul ?_
  rw [scale]
  split_ifs with he
  · calc num < 2 ^ (num.log2 + 1) := hnum
      _ ≤ 2 ^ (den.log2 + e.toNat + j) := Nat.pow_le_pow_right two_pos (by omega)
      _ = 2 ^ den.log2 * 2 ^ e.toNat * 2 ^ j := by rw [pow_add, pow_add]
      _ ≤ den * 2 ^ e.toNat * 2 ^ j := by gcongr
  · calc num * 2 ^ (-e).toNat < 2 ^ (num.log2 + 1) * 2 ^ (-e).toNat := by gcongr
      _ = 2 ^ (num.log2 + 1 + (-e).toNat) := (pow_add ..).symm
      _ ≤ 2 ^ (den.log2 + j) := Nat.pow_le_pow_right two_pos (by omega)
      _ = 2 ^ den.log2 * 2 ^ j := pow_add ..
      _ ≤ den * 2 ^ j := by gcongr

lemma log2_le_of_lt {j : Nat} (h : num < 2 ^ j * den) : num.log2 ≤ j + den.log2 := by
  rcases Nat.eq_zero_or_pos num with rfl | hnum
  · simp
  have hden : den < 2 ^ (den.log2 + 1) := Nat.lt_log2_self
  refine Nat.lt_succ_iff.1 ((Nat.log2_lt hnum.ne').2 ?_)
  calc num < 2 ^ j * den := h
    _ ≤ 2 ^ j * 2 ^ (den.log2 + 1) := by gcongr
    _ = 2 ^ (j + den.log2 + 1) := by rw [← pow_add, add_assoc]

/-- A ratio below `2 ^ j` is rounded to a double with a bounded exponent. -/
lemma bounded_ofRatio (negative : Bool) {j : Nat} (h : num < 2 ^ j * den) (hj : j ≤ 1000) :
    (ofRatio negative num den).Bounded (max (j - 49) (-1070)) := by
  rw [ofRatio]
  split_ifs with hnum
  · exact (bounded_withSign negative (by norm_num)).mono (by omega)
  · have hlog := log2_le_of_lt h
    set guess : Int := max ((num.log2 : Int) - den.log2 - 53) (-1074) with hguess
    dsimp only
    set e := if 2 ^ 53 ≤ (scale num den guess).1 / (scale num den guess).2
      then guess + 1 else guess with he
    have hle : guess ≤ e ∧ e ≤ guess + 1 := by
      rw [he]
      split_ifs <;> omega
    have hquotient : (scale num den e).1 / (scale num den e).2 < 2 ^ 54 :=
      scale_div_lt (by omega)
    have hq := roundDiv_le (scale num den e).1 (scale num den e).2
    set q := roundDiv (scale num den e).1 (scale num den e).2
    rw [if_neg (by omega)]
    refine (bounded_withSign negative (by omega)).mono ?_
    omega

lemma bounded_ofInt {n : Int} {j : Nat} (h : n.natAbs < 2 ^ j) (hj : j ≤ 1000) :
    (ofInt n).Bounded (max (j - 49) (-1070)) :=
  bounded_ofRatio _ (by simpa using h) hj

lemma Bounded.mul {x y : Double} {k l : Int} {j : Nat} (hx : x.Bounded k) (hy : y.Bounded l)
    (hle : 106 + k + l ≤ j) (hj : j ≤ 1000) : (x.mul y).Bounded (max (j - 49) (-1070)) := by
  obtain ⟨s, m, e, hvalue, hm, he⟩ := hx
  obtain ⟨t, n, f, hvalue', hn, hf⟩ := hy
  have hproduct : m * n < 2 ^ 106 := by
    calc m * n < 2 ^ 53 * 2 ^ 53 := Nat.mul_lt_mul'' hm hn
      _ = 2 ^ 106 := (pow_add ..).symm
  simp only [Double.mul, hvalue, hvalue', ofScaled]
  split_ifs with hsum
  · refine bounded_ofRatio _ ?_ hj
    calc m * n * 2 ^ (e + f).toNat < 2 ^ 106 * 2 ^ (e + f).toNat := by gcongr
      _ = 2 ^ (106 + (e + f).toNat) := (pow_add ..).symm
      _ ≤ 2 ^ j := Nat.pow_le_pow_right two_pos (by omega)
      _ = 2 ^ j * 1 := (mul_one _).symm
  · refine bounded_ofRatio _ ?_ hj
    calc m * n < 2 ^ 106 := hproduct
      _ ≤ 2 ^ (j + (-(e + f)).toNat) := Nat.pow_le_pow_right two_pos (by omega)
      _ = 2 ^ j * 2 ^ (-(e + f)).toNat := pow_add ..

lemma Bounded.div {x y : Double} {k f : Int} {i j n : Nat} {t : Bool} (hx : x.Bounded k)
    (hy : y.value = .finite t n f) (hn : 2 ^ i ≤ n) (hle : 53 + k - f ≤ i + j) (hj : j ≤ 1000) :
    (x.div y).Bounded (max (j - 49) (-1070)) := by
  obtain ⟨s, m, e, hvalue, hm, he⟩ := hx
  have hpos : n ≠ 0 := ((Nat.two_pow_pos i).trans_le hn).ne'
  simp only [Double.div, hvalue, hy, if_neg hpos, scale]
  split_ifs with hdiff
  · refine bounded_ofRatio _ ?_ hj
    calc m < 2 ^ 53 := hm
      _ ≤ 2 ^ (j + (i + (f - e).toNat)) := Nat.pow_le_pow_right two_pos (by omega)
      _ = 2 ^ j * (2 ^ i * 2 ^ (f - e).toNat) := by rw [pow_add, pow_add]
      _ ≤ 2 ^ j * (n * 2 ^ (f - e).toNat) := by gcongr
  · refine bounded_ofRatio _ ?_ hj
    calc m * 2 ^ (-(f - e)).toNat < 2 ^ 53 * 2 ^ (-(f - e)).toNat := by gcongr
      _ = 2 ^ (53 + (-(f - e)).toNat) := (pow_add ..).symm
      _ ≤ 2 ^ (j + i) := Nat.pow_le_pow_right two_pos (by omega)
      _ = 2 ^ j * 2 ^ i := pow_add ..
      _ ≤ 2 ^ j * n := by gcongr

end Double

end ConsoleShell
