/-
Widths of fractions.

A format is cut at its fractions, and what stands before each of them is converted by itself.  Text
in which every percent sign is doubled is copied with single ones, so a fraction after it prints its
digits between that text and whatever the rest of the format gives.  The width of a fraction is read
as a signed number of 64 bits and held at nine after that.  So it means the number that is written
unless that number leaves 64 bits and what remains of it is too small: then the fraction has fewer
digits than it should, or is no fraction at all.
-/
import ConsoleShell.Proofs.Argument.Integer
import ConsoleShell.Proofs.Time.Fraction

namespace ConsoleShell

namespace TimeFormat

open Numeral (decimalValue wrap)

variable {p q s r ds : Bytes}

/-! ### Widths -/

/-- Reducing a number before a digit is put behind it changes nothing. -/
lemma wrap_digit (n d : Nat) : (wrap n * 10 + d).bmod (2 ^ 64) = wrap (n * 10 + d) := by
  have hbmod (a b : Int) (m : Nat) : (a.bmod m * 10 + b).bmod m = (a * 10 + b).bmod m := by
    rw [← Int.bmod_add_bmod, Int.bmod_mul_bmod, Int.bmod_add_bmod]
  exact hbmod n d (2 ^ 64)

/-- The width that is read is what 64 bits keep of the number that is written. -/
lemma widthOf_eq (ds : Bytes) : widthOf ds = wrap (decimalValue ds) := by
  induction ds using List.reverseRecOn with
  | nil =>
    rw [Numeral.decimalValue_nil, Numeral.wrap_of_lt (by norm_num)]
    rfl
  | append_singleton ds c ih =>
    -- digits are read from the left, so the last one is put behind the number so far
    have hstep : widthOf (ds ++ [c]) =
        (widthOf ds * 10 + (c.toNat - 48 : Nat)).bmod (2 ^ 64) := by
      rw [widthOf, List.foldl_append]
      rfl
    rw [hstep, ih, wrap_digit, Numeral.decimalValue_append, Numeral.decimalValue_singleton,
      List.length_singleton, pow_one]

/-- The fraction with the given digits as its width, before the rest of a format. -/
def fractionText (ds rest : Bytes) : Bytes := Ascii.percent :: (ds ++ 102 :: rest)

lemma fraction?_digits (hds : ∀ c ∈ ds, Ascii.isDigit c = true) (hne : ds ≠ []) (rest : Bytes) :
    fraction? (ds ++ 102 :: rest) =
      if 0 < wrap (decimalValue ds) then
        some (min (wrap (decimalValue ds)).toNat maxDigits, rest)
      else none := by
  have hdrop : (ds ++ 102 :: rest).dropWhile Ascii.isDigit = 102 :: rest := by
    rw [List.dropWhile_append_of_pos hds]
    rfl
  have htake : (ds ++ 102 :: rest).takeWhile Ascii.isDigit = ds := by
    rw [List.takeWhile_append_of_pos hds]
    simp [Ascii.isDigit]
  have hempty : ds.isEmpty = false := by simpa using hne
  rw [fraction?, hdrop]
  simp [htake, hempty, widthOf_eq]

lemma length_of_fraction? {width : Nat} (h : fraction? s = some (width, r)) :
    r.length < s.length := by
  have hsuffix : s.dropWhile Ascii.isDigit <:+ s := List.dropWhile_suffix _
  rw [fraction?] at h
  split at h
  · next rest hrest =>
    have hlength := hsuffix.length_le
    rw [hrest, List.length_cons] at hlength
    dsimp only at h
    split_ifs at h <;> cases h <;> omega
  · cases h

/-! ### Cutting a format at its fractions -/

/-- Every percent sign of the first text belongs to a pair, and the second text has one for each
pair. -/
inductive Paired : Bytes → Bytes → Prop where
  | nil : Paired [] []
  | pair {p q : Bytes} (h : Paired p q) :
      Paired (Ascii.percent :: Ascii.percent :: p) (Ascii.percent :: q)
  | plain {c : UInt8} {p q : Bytes} (hc : c ≠ Ascii.percent) (h : Paired p q) :
      Paired (c :: p) (c :: q)

lemma splitFraction_pair (s : Bytes) :
    splitFraction (Ascii.percent :: Ascii.percent :: s) =
      (Ascii.percent :: Ascii.percent :: (splitFraction s).1, (splitFraction s).2) := rfl

lemma splitFraction_plain {c : UInt8} (hc : c ≠ Ascii.percent) (s : Bytes) :
    splitFraction (c :: s) = (c :: (splitFraction s).1, (splitFraction s).2) := by
  rw [splitFraction]
  · simp [hc]
  · rintro s' rfl -
    exact hc rfl

lemma splitFraction_percent (hs : s.head? ≠ some Ascii.percent) :
    splitFraction (Ascii.percent :: s) =
      match fraction? s with
      | some found => ([], some found)
      | none => (Ascii.percent :: (splitFraction s).1, (splitFraction s).2) := by
  rw [splitFraction]
  · rfl
  · rintro s' - rfl
    exact hs rfl

/-- No fraction begins in text whose percent signs are doubled. -/
lemma splitFraction_paired (h : Paired p q) (s : Bytes) :
    splitFraction (p ++ s) = (p ++ (splitFraction s).1, (splitFraction s).2) := by
  induction h with
  | nil => rfl
  | pair h ih => rw [List.cons_append, List.cons_append, splitFraction_pair, ih]; rfl
  | plain hc h ih => rw [List.cons_append, splitFraction_plain hc, ih]; rfl

/-- What follows a fraction is shorter than the format. -/
lemma length_of_splitFraction {width : Nat} (h : (splitFraction s).2 = some (width, r)) :
    r.length < s.length := by
  -- by the length of the format, because a pair of percent signs is passed over in one step
  induction hn : s.length using Nat.strong_induction_on generalizing s with
  | _ n ih =>
    subst hn
    rcases s with _ | ⟨c, s⟩
    · cases h
    by_cases hc : c = Ascii.percent
    · subst hc
      by_cases hs : s.head? = some Ascii.percent
      · obtain ⟨s, rfl⟩ := List.head?_eq_some_iff.1 hs
        rw [splitFraction_pair] at h
        have hrest := ih s.length (by simp only [List.length_cons]; omega) h rfl
        simp only [List.length_cons]
        omega
      · rw [splitFraction_percent hs] at h
        split at h
        · next found hfound =>
          obtain rfl := Option.some.inj h
          have hrest := length_of_fraction? hfound
          simp only [List.length_cons]
          omega
        · have hrest := ih s.length (by simp) h rfl
          simp only [List.length_cons]
          omega
    · rw [splitFraction_plain hc] at h
      have hrest := ih s.length (by simp) h rfl
      simp only [List.length_cons]
      omega

/-! ### Formatting -/

variable (t : Instant)

/-- Fuel for every byte of a format and one more is enough. -/
lemma formatFrom_eq (f : Bytes) {m n : Nat} (hm : f.length < m) (hn : f.length < n) :
    formatFrom t m f = formatFrom t n f := by
  induction m generalizing f n with
  | zero => omega
  | succ m ih =>
    obtain ⟨n, rfl⟩ : ∃ k, n = k + 1 := ⟨n - 1, by omega⟩
    rw [formatFrom, formatFrom]
    rcases hcut : splitFraction f with ⟨text, _ | ⟨width, rest⟩⟩
    · rfl
    · have hrest : rest.length < f.length := length_of_splitFraction (by rw [hcut])
      simp only [@ih rest n (by omega) (by omega)]

/-- What stands before the first fraction is converted, the fraction is printed, and the rest is
formatted. -/
lemma format_eq (f : Bytes) :
    format f t =
      match convert (.ofInstant t) (splitFraction f).1, (splitFraction f).2 with
      | .error cause, _ => .error ⟨(splitFraction f).1, cause⟩
      | .ok out, none => .ok out
      | .ok out, some (width, rest) =>
        (format rest t).map fun tail => out ++ fraction t.nanoseconds width ++ tail := by
  rw [format, formatFrom]
  rcases hcut : splitFraction f with ⟨text, _ | ⟨width, rest⟩⟩
  · dsimp only
    cases convert (.ofInstant t) text <;> rfl
  · have hrest : rest.length < f.length := length_of_splitFraction (by rw [hcut])
    have hfuel : formatFrom t f.length rest = format rest t :=
      formatFrom_eq t rest hrest (Nat.lt_succ_self _)
    dsimp only
    rw [hfuel]
    cases convert (.ofInstant t) text <;> rfl

lemma convert_plain (cal : Calendar) {c : UInt8} (hc : c ≠ Ascii.percent) (s : Bytes) :
    convert cal (c :: s) = (convert cal s).map (c :: ·) := by
  rw [convert]
  · rintro rfl -
    exact hc rfl
  · rintro letter s' rfl -
    exact hc rfl

lemma convert_pair (cal : Calendar) (s : Bytes) :
    convert cal (Ascii.percent :: Ascii.percent :: s) =
      (convert cal s).map (Ascii.percent :: ·) := rfl

/-- Plain text is copied, and a pair of percent signs becomes one. -/
lemma convert_paired (cal : Calendar) (h : Paired p q) (s : Bytes) :
    convert cal (p ++ s) = (convert cal s).map (q ++ ·) := by
  induction h with
  | nil =>
    show convert cal s = (convert cal s).map id
    cases convert cal s <;> rfl
  | pair h ih =>
    rw [List.cons_append, List.cons_append, convert_pair, ih]
    cases convert cal s <;> rfl
  | plain hc h ih =>
    rw [List.cons_append, convert_plain cal hc, ih]
    cases convert cal s <;> rfl

/-- A digit is no conversion. -/
lemma convert_digit (cal : Calendar) {d : UInt8} (hd : Ascii.isDigit d = true) (s : Bytes) :
    convert cal (Ascii.percent :: d :: s) = .error (.unknownConversion d) := by
  have hnone : conversion? cal d = none := by
    obtain ⟨hlow, hhigh⟩ := Ascii.isDigit_iff.1 hd
    obtain ⟨n, hn, rfl⟩ : ∃ n < 10, d = UInt8.ofNat (48 + n) := by
      refine ⟨d.toNat - 48, by omega, ?_⟩
      rw [Nat.add_sub_cancel' hlow, UInt8.ofNat_toNat]
    interval_cases n <;> rfl
  rw [convert, hnone]

section

variable (hds : ∀ c ∈ ds, Ascii.isDigit c = true) (hne : ds ≠ [])
include hds hne

lemma head?_digits (s : Bytes) : (ds ++ s).head? ≠ some Ascii.percent := by
  cases ds with
  | nil => exact absurd rfl hne
  | cons d ds =>
    rintro h
    obtain rfl : d = Ascii.percent := Option.some.inj h
    exact absurd (hds _ List.mem_cons_self) (by decide)

/-- A fraction whose width is read as a positive number prints so many digits, but at most nine. -/
lemma format_of_pos (h : Paired p q) (hpos : 0 < wrap (decimalValue ds)) (r : Bytes) :
    format (p ++ fractionText ds r) t =
      (format r t).map fun tail =>
        q ++ fraction t.nanoseconds (min (wrap (decimalValue ds)).toNat maxDigits) ++ tail := by
  have hcut : splitFraction (p ++ fractionText ds r) =
      (p, some (min (wrap (decimalValue ds)).toNat maxDigits, r)) := by
    rw [splitFraction_paired h, fractionText, splitFraction_percent (head?_digits hds hne _),
      fraction?_digits hds hne, if_pos hpos, List.append_nil]
  have hconvert : convert (.ofInstant t) p = .ok q := by
    have hpaired := convert_paired (.ofInstant t) h []
    rw [List.append_nil] at hpaired
    rw [hpaired, convert]
    simp [Except.map]
  rw [format_eq, hcut, hconvert]

/-- A fraction whose width is not read as a positive number is refused as a conversion. -/
lemma format_of_not_pos (h : Paired p q) (hpos : ¬0 < wrap (decimalValue ds)) (r : Bytes) :
    ∃ fault, format (p ++ fractionText ds r) t = .error fault := by
  obtain ⟨d, ds', rfl⟩ := List.exists_cons_of_ne_nil hne
  have hd : Ascii.isDigit d = true := hds _ List.mem_cons_self
  have hpercent : d ≠ Ascii.percent := by
    rintro rfl
    exact absurd hd (by decide)
  have hcut : ∃ s, (splitFraction (p ++ fractionText (d :: ds') r)).1 =
      p ++ Ascii.percent :: d :: s := by
    refine ⟨(splitFraction (ds' ++ 102 :: r)).1, ?_⟩
    rw [splitFraction_paired h, fractionText, splitFraction_percent (head?_digits hds hne _),
      fraction?_digits hds hne, if_neg hpos, List.cons_append, splitFraction_plain hpercent]
  obtain ⟨s, hs⟩ := hcut
  -- the percent sign is left to be converted, with a digit behind it
  have hconvert : convert (.ofInstant t) (p ++ Ascii.percent :: d :: s) =
      .error (.unknownConversion d) := by
    rw [convert_paired _ h, convert_digit _ hd]
    rfl
  refine ⟨⟨p ++ Ascii.percent :: d :: s, .unknownConversion d⟩, ?_⟩
  rw [format_eq, hs, hconvert]

end

/-! ### Widths that mean what they say -/

/-- If 64 bits keep enough of a width, the fraction prints as many digits as the width says, but at
most nine. -/
lemma format_of_le (hds : ∀ c ∈ ds, Ascii.isDigit c = true) (hne : ds ≠ [])
    (hvalue : 1 ≤ decimalValue ds)
    (hkept : (min (decimalValue ds) 9 : Nat) ≤ wrap (decimalValue ds)) (h : Paired p q)
    (r : Bytes) :
    format (p ++ fractionText ds r) t =
      (format r t).map fun tail =>
        q ++ fraction t.nanoseconds (min (decimalValue ds) 9) ++ tail := by
  have hwidth : min (wrap (decimalValue ds)).toNat maxDigits = min (decimalValue ds) 9 := by
    by_cases hsmall : decimalValue ds < 9
    · rw [Numeral.wrap_of_lt (by omega), Int.toNat_natCast]
    · rw [maxDigits]
      omega
  rw [format_of_pos t hds hne h (by omega), hwidth]

/-- A fraction alone prints its digits and nothing else. -/
lemma format_alone {width : Nat}
    (h : format ([] ++ fractionText ds []) t =
      (format [] t).map fun tail => [] ++ fraction t.nanoseconds width ++ tail) :
    format (fractionText ds []) t = .ok (fraction t.nanoseconds width) := by
  have hempty : format [] t = .ok [] := rfl
  rw [hempty] at h
  simpa [Except.map] using h

/-- A fraction that prints as many digits as its width says has a width of which 64 bits keep
enough. -/
lemma le_of_format (hds : ∀ c ∈ ds, Ascii.isDigit c = true) (hne : ds ≠ []) {text : Bytes}
    (hformat : format (fractionText ds []) t = .ok text)
    (hlength : text.length = min (decimalValue ds) 9) :
    (min (decimalValue ds) 9 : Nat) ≤ wrap (decimalValue ds) := by
  have hread := fun hpos => format_alone t (format_of_pos t hds hne .nil hpos [])
  have hrefused := fun hpos => format_of_not_pos t hds hne .nil hpos []
  -- how the number is reduced does not matter from here on
  generalize wrap (decimalValue ds) = kept at hread hrefused ⊢
  by_cases hpos : 0 < kept
  · obtain rfl := Except.ok.inj (hformat.symm.trans (hread hpos))
    have hle : min kept.toNat maxDigits ≤ 9 := min_le_right _ _
    rw [length_fraction (by rw [maxDigits]; omega) hle] at hlength
    rw [← hlength]
    omega
  · obtain ⟨fault, hfault⟩ := hrefused hpos
    rw [List.nil_append, hformat] at hfault
    cases hfault

/-- A single digit as the width. -/
lemma format_single {width : Nat} (hpos : 1 ≤ width) (hle : width ≤ 9) :
    format (fractionText [Ascii.ofDigit width] []) t = .ok (fraction t.nanoseconds width) := by
  have hdigit : Ascii.isDigit (Ascii.ofDigit width) = true ∧
      decimalValue [Ascii.ofDigit width] = width := by
    interval_cases width <;> decide
  obtain ⟨hdigit, hvalue⟩ := hdigit
  have hkept : (min (decimalValue [Ascii.ofDigit width]) 9 : Nat) ≤
      wrap (decimalValue [Ascii.ofDigit width]) := by
    rw [hvalue, Numeral.wrap_of_lt (by omega)]
    omega
  have hformat := @format_of_le [] [] [Ascii.ofDigit width] t (by simpa using hdigit) (by simp)
    (by rw [hvalue]; exact hpos) hkept .nil []
  rw [hvalue, min_eq_left hle] at hformat
  exact format_alone t hformat

/-- **A width means the number that is written as long as 64 bits keep it.**  Take a fraction with
digits for a positive number as its width.  It prints as many digits as the number says but at most
nine, like the fraction with that single digit as its width, exactly if what 64 bits keep of the
number is not less than so many digits.  Exactly then it also prints these digits after any text
with doubled percent signs and before whatever the rest of the format gives, and the format is
refused only if the rest is.  Numbers below `2 ^ 63` are always kept. -/
theorem width_means_its_number_iff (hds : ∀ c ∈ ds, Ascii.isDigit c = true) (hne : ds ≠ [])
    (hvalue : 1 ≤ decimalValue ds) :
    let width := min (decimalValue ds) 9
    let kept := wrap (decimalValue ds)
    ((format (fractionText ds []) t = format (fractionText [Ascii.ofDigit width] []) t ∧
        ∃ text, format (fractionText ds []) t = .ok text ∧ text.length = width ∧
          ∀ c ∈ text, Ascii.isDigit c = true) ↔ (width : Int) ≤ kept) ∧
      ((∀ p q r, Paired p q → format (p ++ fractionText ds r) t =
          (format r t).map fun tail => q ++ fraction t.nanoseconds width ++ tail) ↔
        (width : Int) ≤ kept) ∧
      (decimalValue ds < 2 ^ 63 → (width : Int) ≤ kept) := by
  intro width kept
  have hle : width ≤ 9 := min_le_right _ _
  have hpos : 1 ≤ width := le_min hvalue (by norm_num)
  have hlength := length_fraction hpos hle t.nanoseconds
  have hmeans (hkept : (width : Int) ≤ kept) (p q r : Bytes) (h : Paired p q) :=
    format_of_le t hds hne hvalue hkept h r
  refine ⟨⟨?_, fun hkept => ?_⟩, ⟨fun hall => ?_, hmeans⟩, fun hsmall => ?_⟩
  · rintro ⟨-, text, htext, hlen, -⟩
    exact le_of_format t hds hne htext hlen
  · have hprinted := format_alone t (hmeans hkept [] [] [] .nil)
    have hsingle := format_single t hpos hle
    exact ⟨hprinted.trans hsingle.symm, _, hprinted, hlength, isDigit_fraction _ _⟩
  · exact le_of_format t hds hne (format_alone t (hall [] [] [] .nil)) hlength
  · have hall : kept = decimalValue ds := Numeral.wrap_of_lt hsmall
    have hwidth : width ≤ decimalValue ds := min_le_left _ _
    omega

/-- The width `012` between doubled percent signs. -/
theorem width_means_its_number_iff_leading_zero :
    let ds : Bytes := [48, 49, 50]
    let t : Instant := ⟨0, 5⟩
    (∀ c ∈ ds, Ascii.isDigit c = true) ∧ ds ≠ [] ∧ 1 ≤ decimalValue ds ∧
      format ([37, 37] ++ fractionText ds [37, 37]) t =
        .ok [37, 48, 48, 48, 48, 48, 48, 48, 48, 53, 37] := by
  intro ds t
  have hds : ∀ c ∈ ds, Ascii.isDigit c = true := by decide +kernel
  have htwelve : decimalValue ds = 12 := by decide +kernel
  have hvalue : 1 ≤ decimalValue ds := by omega
  obtain ⟨-, hall, hkept⟩ := width_means_its_number_iff t hds (by decide) hvalue
  have hformat := hall.2 (hkept (by omega)) [37, 37] [37] [37, 37] (.pair .nil)
  exact ⟨hds, by decide, hvalue, hformat.trans (by decide +kernel)⟩

/-- The width `2 ^ 64 + 1` prints one digit, where nine are meant. -/
theorem oversized_width_prints_one_digit :
    let ds : Bytes :=
      [49, 56, 52, 52, 54, 55, 52, 52, 48, 55, 51, 55, 48, 57, 53, 53, 49, 54, 49, 55]
    let t : Instant := ⟨0, 123456789⟩
    (∀ c ∈ ds, Ascii.isDigit c = true) ∧ decimalValue ds = 2 ^ 64 + 1 ∧
      format (fractionText ds []) t = .ok [49] ∧
      format (fractionText [57] []) t = .ok [49, 50, 51, 52, 53, 54, 55, 56, 57] := by
  decide +kernel

end TimeFormat

end ConsoleShell
