/-
The order of byte strings.

Byte strings are ordered by the first byte in which they differ, and a string comes before those
that continue it.  The order is strict and total.
-/
import ConsoleShell.Text.Bytes
import Mathlib

namespace ConsoleShell

namespace Bytes

variable {r s t : Bytes}

lemma lt_irrefl (s : Bytes) : s.lt s = false := by
  induction s with
  | nil => rfl
  | cons a s ih => simp [lt, ih]

lemma lt_trans (h : r.lt s = true) (h' : s.lt t = true) : r.lt t = true := by
  induction r generalizing s t with
  | nil =>
    cases t with
    | nil => simp [lt] at h'
    | cons _ _ => rfl
  | cons a r ih =>
    cases s with
    | nil => simp [lt] at h
    | cons b s =>
      cases t with
      | nil => simp [lt] at h'
      | cons c t =>
        simp only [lt, Bool.or_eq_true, decide_eq_true_eq, Bool.and_eq_true, beq_iff_eq] at *
        obtain hab | ⟨rfl, hrs⟩ := h <;> obtain hbc | ⟨rfl, hst⟩ := h'
        · exact .inl (UInt8.lt_trans hab hbc)
        · exact .inl hab
        · exact .inl hbc
        · exact .inr ⟨rfl, ih hrs hst⟩

lemma lt_of_not_lt (h : s.lt r = false) (hne : r ≠ s) : r.lt s = true := by
  induction r generalizing s with
  | nil =>
    cases s with
    | nil => exact absurd rfl hne
    | cons _ _ => rfl
  | cons a r ih =>
    cases s with
    | nil => simp [lt] at h
    | cons b s =>
      simp only [lt, Bool.or_eq_false_iff, decide_eq_false_iff_not, Bool.and_eq_false_iff,
        beq_eq_false_iff_ne, Bool.or_eq_true, decide_eq_true_eq, Bool.and_eq_true,
        beq_iff_eq] at h ⊢
      by_cases hab : a = b
      · subst hab
        exact .inr ⟨rfl, ih (h.2.resolve_left (not_not.2 rfl)) fun hrs => hne (hrs ▸ rfl)⟩
      · exact .inl ((UInt8.lt_or_lt_of_ne hab).resolve_right h.1)

lemma lt_asymm (h : r.lt s = true) : s.lt r = false := by
  cases h' : s.lt r with
  | false => rfl
  | true => exact absurd (lt_trans h h') (by simp [lt_irrefl])

/-- What two strings begin with does not matter to their order. -/
lemma append_lt_append (r s t : Bytes) : (r ++ s).lt (r ++ t) = s.lt t := by
  induction r with
  | nil => rfl
  | cons a r ih => simp [lt, ih]

/-- A string is before another one or equal to it. -/
lemma le_iff : s.le t = true ↔ s.lt t = true ∨ s = t := by
  induction s generalizing t with
  | nil => cases t <;> simp [le, lt]
  | cons a s ih =>
    cases t with
    | nil => simp [le, lt]
    | cons b t =>
      simp only [le, lt, Bool.or_eq_true, decide_eq_true_eq, Bool.and_eq_true, beq_iff_eq, ih,
        List.cons.injEq]
      tauto

protected lemma le_trans (h : r.le s = true) (h' : s.le t = true) : r.le t = true := by
  rw [le_iff] at *
  rcases h with h | rfl
  · rcases h' with h' | rfl
    · exact .inl (lt_trans h h')
    · exact .inl h
  · exact h'

protected lemma le_total (s t : Bytes) : (s.le t || t.le s) = true := by
  rw [Bool.or_eq_true, le_iff, le_iff]
  by_cases heq : s = t
  · exact .inl (.inr heq)
  · cases h : t.lt s with
    | true => exact .inr (.inl rfl)
    | false => exact .inl (.inl (lt_of_not_lt h heq))

end Bytes

end ConsoleShell
