/-
Splitting a byte string at a byte.

A string is split at the first occurrence of a byte, or at all of them.  The parts in front of an
occurrence are free of the byte, and parts that are free of it are found again when they are put
together with the byte between them.
-/
import ConsoleShell.Text.Bytes
import Mathlib

namespace ConsoleShell

namespace Bytes

/-! ### The first occurrence -/

section

variable {x : UInt8}

lemma splitAt?_append {a : Bytes} (h : ∀ c ∈ a, c ≠ x) (b : Bytes) :
    splitAt? x (a ++ x :: b) = some (a, b) := by
  induction a with
  | nil => simp [splitAt?]
  | cons c a ih =>
    rw [List.forall_mem_cons] at h
    simp [splitAt?, h.1, ih h.2]

lemma splitAt?_eq_some_iff {s a b : Bytes} :
    splitAt? x s = some (a, b) ↔ s = a ++ x :: b ∧ x ∉ a := by
  constructor
  · intro h
    induction s generalizing a with
    | nil => cases h
    | cons c s ih =>
      rw [splitAt?] at h
      split_ifs at h with hc
      · obtain ⟨rfl, rfl⟩ := Prod.mk.inj (Option.some.inj h)
        exact ⟨by rw [beq_iff_eq.1 hc]; rfl, by simp⟩
      · obtain ⟨⟨a', b'⟩, hsplit, heq⟩ := Option.map_eq_some_iff.1 h
        obtain ⟨rfl, rfl⟩ := Prod.mk.inj heq
        obtain ⟨rfl, hmem⟩ := ih hsplit
        refine ⟨rfl, ?_⟩
        rw [List.mem_cons, not_or]
        exact ⟨fun hxc => hc (beq_iff_eq.2 hxc.symm), hmem⟩
  · rintro ⟨rfl, hx⟩
    refine splitAt?_append (fun c hc => ?_) b
    rintro rfl
    exact hx hc

lemma splitAt?_eq_none_iff {s : Bytes} : splitAt? x s = none ↔ x ∉ s := by
  induction s with
  | nil => simp [splitAt?]
  | cons c s ih =>
    rw [splitAt?, List.mem_cons, not_or, ← ih]
    split_ifs with hc
    · simp [beq_iff_eq.1 hc]
    · simpa using fun _ => fun hxc => hc (beq_iff_eq.2 hxc.symm)

end

/-! ### All occurrences -/

variable {c : UInt8}

lemma splitOn_ne_nil (c : UInt8) (s : Bytes) : s.splitOn c ≠ [] := by
  cases s with
  | nil => simp [splitOn]
  | cons x s =>
    rw [splitOn]
    split_ifs
    · simp
    · split <;> simp

/-- The pieces between the occurrences of a byte do not contain it. -/
lemma not_mem_of_mem_splitOn {s e : Bytes} (h : e ∈ s.splitOn c) : c ∉ e := by
  induction s generalizing e with
  | nil =>
    obtain rfl := List.mem_singleton.1 h
    exact List.not_mem_nil
  | cons x s ih =>
    rw [splitOn] at h
    split_ifs at h with hx
    · rcases List.mem_cons.1 h with rfl | h
      · exact List.not_mem_nil
      · exact ih h
    · have hne : c ≠ x := fun heq => hx (beq_iff_eq.2 heq.symm)
      split at h
      · obtain rfl := List.mem_singleton.1 h
        simpa using hne
      · rename_i p ps heq
        rcases List.mem_cons.1 h with rfl | h
        · have hp : c ∉ p := ih (heq ▸ List.mem_cons_self)
          simp [hne, hp]
        · exact ih (heq ▸ List.mem_cons_of_mem p h)

lemma splitOn_of_not_mem {s : Bytes} (h : c ∉ s) : s.splitOn c = [s] := by
  induction s with
  | nil => rfl
  | cons x s ih =>
    obtain ⟨hx, hs⟩ := not_or.1 (mt List.mem_cons.2 h)
    have hne : (x == c) = false := beq_eq_false_iff_ne.2 (Ne.symm hx)
    rw [splitOn, hne, if_neg Bool.false_ne_true, ih hs]

lemma splitOn_append {e : Bytes} (h : c ∉ e) (s : Bytes) :
    splitOn c (e ++ c :: s) = e :: s.splitOn c := by
  induction e with
  | nil => simp [splitOn]
  | cons x e ih =>
    obtain ⟨hx, he⟩ := not_or.1 (mt List.mem_cons.2 h)
    have hne : (x == c) = false := beq_eq_false_iff_ne.2 (Ne.symm hx)
    rw [List.cons_append, splitOn, hne, if_neg Bool.false_ne_true, ih he]

lemma splitOn_join {es : List Bytes} (hne : es ≠ []) (h : ∀ e ∈ es, c ∉ e) :
    splitOn c (join [c] es) = es := by
  induction es with
  | nil => exact absurd rfl hne
  | cons e es ih =>
    have he : c ∉ e := h e List.mem_cons_self
    cases es with
    | nil => exact splitOn_of_not_mem he
    | cons e' es =>
      have hrest := ih (by simp) fun x hx => h x (List.mem_cons_of_mem e hx)
      show splitOn c (e ++ [c] ++ join [c] (e' :: es)) = _
      rw [List.append_assoc, List.singleton_append, splitOn_append he, hrest]

end Bytes

end ConsoleShell
