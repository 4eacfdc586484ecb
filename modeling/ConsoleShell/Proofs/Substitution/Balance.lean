/-
Balanced text.

The search for the bracket that closes a reference counts the brackets that are open.  Text in
which brackets are balanced is passed over, whatever the count is, and what the search ends at is
the first closing bracket with balanced text before it.
-/
import ConsoleShell.Substitution
import Mathlib

namespace ConsoleShell

namespace Substitution

/-- Brackets are balanced in the text.  A bracket of one kind may close one of the other. -/
inductive Balanced : Bytes → Prop where
  | nil : Balanced []
  | byte {c : UInt8} {s : Bytes} (hopen : isOpen c = false) (hclose : isClose c = false)
      (hs : Balanced s) : Balanced (c :: s)
  | nested {o c : UInt8} {s t : Bytes} (ho : isOpen o = true) (hc : isClose c = true)
      (hs : Balanced s) (ht : Balanced t) : Balanced (o :: (s ++ c :: t))

lemma isOpen_eq_false_of_isClose {c : UInt8} (hc : isClose c = true) : isOpen c = false := by
  simp only [isClose, Bool.or_eq_true, beq_iff_eq] at hc
  rcases hc with rfl | rfl <;> rfl

namespace Balanced

variable {s t : Bytes}

lemma append (hs : Balanced s) (ht : Balanced t) : Balanced (s ++ t) := by
  induction hs with
  | nil => exact ht
  | byte hopen hclose _ ih => exact .byte hopen hclose ih
  | nested ho hc hs _ _ ih =>
    rw [List.cons_append, List.append_assoc, List.cons_append]
    exact .nested ho hc hs ih

/-- The search for a closing bracket passes over balanced text, whatever level it is on. -/
lemma closeBracket_append (hs : Balanced s) (level : Nat) (rest : Bytes) :
    closeBracket level (s ++ rest) = (closeBracket level rest).map fun p => (s ++ p.1, p.2) := by
  induction hs generalizing level rest with
  | nil => simp
  | byte hopen hclose _ ih =>
    rw [List.cons_append, closeBracket, if_neg (by simp [hopen]), if_neg (by simp [hclose]), ih,
      Option.map_map]
    rfl
  | @nested o c s t ho hc _ _ ihs iht =>
    -- the inner text is passed over one level further in, and its closing bracket leads back
    have hback : closeBracket (level + 1) (c :: (t ++ rest)) =
        (closeBracket level rest).map fun p => (c :: (t ++ p.1), p.2) := by
      rw [closeBracket, if_neg (by simp [isOpen_eq_false_of_isClose hc]), if_pos hc,
        if_neg (Nat.succ_ne_zero level), Nat.add_sub_cancel, iht, Option.map_map]
      rfl
    rw [List.cons_append, List.append_assoc, List.cons_append, closeBracket, if_pos ho, ihs, hback,
      Option.map_map, Option.map_map]
    refine congrArg (fun f => (closeBracket level rest).map f) (funext fun p => ?_)
    simp

/-- The bracket after the balanced body of a reference closes the reference. -/
lemma closeBracket_body {c : UInt8} (hs : Balanced s) (hc : isClose c = true) (rest : Bytes) :
    closeBracket 0 (s ++ c :: rest) = some (s, rest) := by
  rw [hs.closeBracket_append, closeBracket, isOpen_eq_false_of_isClose hc, hc]
  simp

end Balanced

/-! ### The search for a closing bracket -/

section

variable {s body rest : Bytes}

/-- If the search ends, then a closing bracket has balanced text before it.  The induction is on
the length, as the search goes on behind a bracket inside, far from where it has begun. -/
lemma exists_body {level : Nat} (h : (closeBracket level s).isSome = true) :
    ∃ body c rest, s = body ++ c :: rest ∧ Balanced body ∧ isClose c = true := by
  induction hn : s.length using Nat.strong_induction_on generalizing s level with
  | _ n ih =>
    subst hn
    cases s with
    | nil => cases h
    | cons c s =>
      rw [closeBracket] at h
      split_ifs at h with hopen hclose hlevel
      · -- the bracket that closes this one, and then the one that is looked for
        rw [Option.isSome_map] at h
        obtain ⟨t, d, r, rfl, ht, hd⟩ := ih _ (by simp) h rfl
        rw [ht.closeBracket_append, Option.isSome_map, closeBracket,
          isOpen_eq_false_of_isClose hd, hd] at h
        have hr : (closeBracket level r).isSome = true := by simpa using h
        obtain ⟨body, e, rest, rfl, hbody, he⟩ := ih _ (by simp; omega) hr rfl
        exact ⟨c :: (t ++ d :: body), e, rest, by simp, .nested hopen hd ht hbody, he⟩
      · exact ⟨[], c, s, rfl, .nil, hclose⟩
      · exact ⟨[], c, s, rfl, .nil, hclose⟩
      · rw [Option.isSome_map] at h
        obtain ⟨body, d, rest, rfl, hbody, hd⟩ := ih _ (by simp) h rfl
        exact ⟨c :: body, d, rest, rfl,
          .byte (by simpa using hopen) (by simpa using hclose) hbody, hd⟩

/-- What the search ends at is the closing bracket that has balanced text before it. -/
lemma closeBracket_eq_some_iff :
    closeBracket 0 s = some (body, rest) ↔
      ∃ c, s = body ++ c :: rest ∧ Balanced body ∧ isClose c = true := by
  constructor
  · intro h
    obtain ⟨t, c, r, rfl, ht, hc⟩ := exists_body (Option.isSome_of_eq_some h)
    rw [ht.closeBracket_body hc] at h
    obtain ⟨rfl, rfl⟩ := Prod.mk.inj (Option.some.inj h)
    exact ⟨c, rfl, ht, hc⟩
  · rintro ⟨c, rfl, hbody, hc⟩
    exact hbody.closeBracket_body hc rest

/-- Where a bracket closes does not depend on what comes after it. -/
lemma closeBracket_rest {c : UInt8} (h : closeBracket 0 (body ++ c :: rest) = some (body, rest))
    (rest' : Bytes) : closeBracket 0 (body ++ c :: rest') = some (body, rest') := by
  obtain ⟨c', heq, hbody, hc⟩ := closeBracket_eq_some_iff.1 h
  obtain rfl : c = c' := by simpa using heq
  exact hbody.closeBracket_body hc rest'

end

end Substitution

end ConsoleShell
