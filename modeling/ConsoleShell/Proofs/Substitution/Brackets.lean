/-
Brackets of two kinds.

A reference ends at the first bracket behind its own that leaves as many brackets closed as have
been opened.  This count does not tell the two kinds apart.  Where each bracket is closed by one
of its own kind, the count finds the bracket that closes the reference.  Where brackets cross, it
ends the reference at a bracket that closes something else, and nothing is reported.  What the
count cannot see, a stack of the open brackets can.
-/
import ConsoleShell.Proofs.Substitution.Depth

namespace ConsoleShell

namespace Substitution

/-! ### Kinds of brackets -/

/-- An opening bracket and a closing one of the same kind. -/
def IsPair (o c : UInt8) : Prop :=
  (o = Ascii.openParen ∧ c = Ascii.closeParen) ∨ (o = Ascii.openBrace ∧ c = Ascii.closeBrace)

instance (o c : UInt8) : Decidable (IsPair o c) := inferInstanceAs (Decidable (_ ∨ _))

namespace IsPair

variable {o c : UInt8}

lemma isOpen (h : IsPair o c) : isOpen o = true := by
  rcases h with ⟨rfl, -⟩ | ⟨rfl, -⟩ <;> rfl

lemma isClose (h : IsPair o c) : isClose c = true := by
  rcases h with ⟨-, rfl⟩ | ⟨-, rfl⟩ <;> rfl

end IsPair

/-- Brackets are balanced in the text, and each is closed by one of its own kind. -/
inductive Nested : Bytes → Prop where
  | nil : Nested []
  | byte {c : UInt8} {s : Bytes} (hopen : isOpen c = false) (hclose : isClose c = false)
      (hs : Nested s) : Nested (c :: s)
  | nested {o c : UInt8} {s t : Bytes} (h : IsPair o c) (hs : Nested s) (ht : Nested t) :
      Nested (o :: (s ++ c :: t))

/-- Somewhere in the text a bracket is closed by one of the other kind. -/
def Crosses (text : Bytes) : Prop :=
  ∃ front o s c back, text = front ++ o :: (s ++ c :: back) ∧ isOpen o = true ∧
    isClose c = true ∧ Balanced s ∧ ¬ IsPair o c

lemma Nested.balanced {s : Bytes} (h : Nested s) : Balanced s := by
  induction h with
  | nil => exact .nil
  | byte hopen hclose _ ih => exact .byte hopen hclose ih
  | nested h _ _ ihs iht => exact .nested h.isOpen h.isClose ihs iht

lemma Crosses.append {s : Bytes} (h : Crosses s) (p q : Bytes) : Crosses (p ++ s ++ q) := by
  obtain ⟨front, o, t, c, back, rfl, hrest⟩ := h
  exact ⟨p ++ front, o, t, c, back ++ q, by simp, hrest⟩

/-- Balanced text is nested, unless brackets cross in it. -/
lemma Balanced.nested_or_crosses {s : Bytes} (h : Balanced s) : Nested s ∨ Crosses s := by
  induction h with
  | nil => exact .inl .nil
  | @byte c s hopen hclose _ ih =>
    refine ih.imp (.byte hopen hclose) fun hs => ?_
    simpa using hs.append [c] []
  | @nested o c s t ho hc hs _ ihs iht =>
    by_cases hpair : IsPair o c
    · rcases ihs with hs | hs
      · refine iht.imp (.nested hpair hs) fun ht => ?_
        simpa using ht.append (o :: (s ++ [c])) []
      · exact .inr (by simpa using hs.append [o] (c :: t))
    · exact .inr ⟨[], o, s, c, t, rfl, ho, hc, hs, hpair⟩

/-! ### A stack of open brackets -/

/-- The open brackets after a byte, the latest first; none if the byte closes nothing, or a
bracket of the other kind. -/
def step (stack : Bytes) (c : UInt8) : Option Bytes :=
  if isOpen c then some (c :: stack)
  else if isClose c then
    match stack with
    | [] => none
    | o :: stack => if IsPair o c then some stack else none
  else some stack

/-- The open brackets after a text. -/
def unwind (stack s : Bytes) : Option Bytes := s.foldlM step stack

section

variable {o c : UInt8} {s : Bytes}

lemma unwind_open (ho : isOpen o = true) (stack s : Bytes) :
    unwind stack (o :: s) = unwind (o :: stack) s := by
  simp only [unwind, List.foldlM_cons, step, ho, if_true]
  rfl

lemma unwind_close (hc : isClose c = true) (o : UInt8) (stack s : Bytes) :
    unwind (o :: stack) (c :: s) = if IsPair o c then unwind stack s else none := by
  simp only [unwind, List.foldlM_cons, step, isOpen_eq_false_of_isClose hc, hc,
    Bool.false_eq_true, if_false, if_true]
  split_ifs <;> rfl

lemma unwind_byte (hopen : isOpen c = false) (hclose : isClose c = false) (stack s : Bytes) :
    unwind stack (c :: s) = unwind stack s := by
  simp only [unwind, List.foldlM_cons, step, hopen, hclose, Bool.false_eq_true, if_false]
  rfl

lemma unwind_append (stack s t : Bytes) :
    unwind stack (s ++ t) = (unwind stack s).bind fun stack => unwind stack t :=
  List.foldlM_append

/-- Nested text leaves the stack as it is. -/
lemma Nested.unwind (h : Nested s) (stack : Bytes) : unwind stack s = some stack := by
  induction h generalizing stack with
  | nil => rfl
  | byte hopen hclose _ ih => rw [unwind_byte hopen hclose, ih]
  | nested h _ _ ihs iht =>
    rw [unwind_open h.isOpen, unwind_append, ihs, Option.bind_some, unwind_close h.isClose,
      if_pos h, iht]

/-- Balanced text leaves the stack as it is, if it can be read. -/
lemma Balanced.unwind (h : Balanced s) (stack : Bytes) :
    unwind stack s = some stack ∨ unwind stack s = none := by
  induction h generalizing stack with
  | nil => exact .inl rfl
  | byte hopen hclose _ ih =>
    rw [unwind_byte hopen hclose]
    exact ih stack
  | @nested o c s t ho hc _ _ ihs iht =>
    rw [unwind_open ho, unwind_append]
    rcases ihs (o :: stack) with hs | hs
    · rw [hs, Option.bind_some, unwind_close hc]
      split_ifs
      · exact iht stack
      · exact .inr rfl
    · rw [hs]
      exact .inr rfl

/-- Text in which brackets cross cannot be read. -/
lemma Crosses.unwind (h : Crosses s) (stack : Bytes) : unwind stack s = none := by
  obtain ⟨front, o, t, c, back, rfl, ho, hc, ht, hpair⟩ := h
  have hcrossed (stack : Bytes) : Substitution.unwind stack (o :: (t ++ c :: back)) = none := by
    rw [unwind_open ho, unwind_append]
    rcases ht.unwind (o :: stack) with hread | hread
    · rw [hread, Option.bind_some, unwind_close hc, if_neg hpair]
    · rw [hread, Option.bind_none]
  rw [unwind_append]
  cases Substitution.unwind stack front with
  | none => rfl
  | some stack => exact hcrossed stack

lemma Nested.not_crosses (h : Nested s) : ¬ Crosses s := by
  intro hs
  have hread := h.unwind []
  rw [hs.unwind []] at hread
  cases hread

lemma Balanced.nested_iff (h : Balanced s) : Nested s ↔ ¬ Crosses s :=
  ⟨Nested.not_crosses, fun hs => h.nested_or_crosses.resolve_right hs⟩

end

/-- A balanced text in brackets is nested exactly if it is nested itself and the brackets are of
one kind. -/
lemma nested_enclosed_iff {o c : UInt8} (ho : isOpen o = true) (hc : isClose c = true)
    (hbody : Balanced body) : Nested (o :: (body ++ [c])) ↔ IsPair o c ∧ Nested body := by
  constructor
  · intro h
    generalize htext : o :: (body ++ [c]) = text at h
    cases h with
    | nil => cases htext
    | byte hopen _ _ =>
      obtain ⟨rfl, -⟩ := List.cons.inj htext
      rw [ho] at hopen
      cases hopen
    | @nested o' c' t u hpair ht hu =>
      obtain ⟨rfl, hs⟩ := List.cons.inj htext
      -- both closing brackets are the one that the search finds
      have hfound := hbody.closeBracket_body hc []
      rw [hs, ht.balanced.closeBracket_body hpair.isClose] at hfound
      obtain ⟨rfl, rfl⟩ := Prod.mk.inj (Option.some.inj hfound)
      obtain rfl : c = c' := by simpa using hs
      exact ⟨hpair, ht⟩
  · rintro ⟨hpair, hbody⟩
    exact .nested hpair hbody .nil

/-! ### Positions -/

/-- The index of the bracket that ends a reference whose bracket is at the index `i`; none if the
reference does not end. -/
def closingIndex? (text : Bytes) (i : Nat) : Option Nat :=
  (closeBracket 0 (text.drop (i + 1))).map fun p => i + 1 + p.1.length

/-- The text strictly between two indices. -/
def between (text : Bytes) (i e : Nat) : Bytes := (text.drop (i + 1)).take (e - (i + 1))

/-- The text from one index up to and with another one. -/
def span (text : Bytes) (i e : Nat) : Bytes := (text.drop i).take (e + 1 - i)

/-- The bracket at the index `e` closes the one at `i`: it is of the same kind, and the text
between them is nested. -/
structure Closes (text : Bytes) (i e : Nat) : Prop where
  after : i < e
  pair : ∃ o c, text[i]? = some o ∧ text[e]? = some c ∧ IsPair o c
  nested : Nested (between text i e)

section

variable {text : Bytes} {i e : Nat} {o c : UInt8}

lemma drop_eq_cons (h : text[i]? = some c) : text.drop i = c :: text.drop (i + 1) := by
  obtain ⟨hi, rfl⟩ := List.getElem?_eq_some_iff.1 h
  exact List.drop_eq_getElem_cons hi

lemma drop_eq_between (hi : i < e) (h : text[e]? = some c) :
    text.drop (i + 1) = between text i e ++ c :: text.drop (e + 1) := by
  rw [← drop_eq_cons h, between]
  conv_lhs => rw [← List.take_append_drop (e - (i + 1)) (text.drop (i + 1))]
  rw [List.drop_drop, show i + 1 + (e - (i + 1)) = e by omega]

lemma length_between (hi : i < e) (h : text[e]? = some c) :
    (between text i e).length = e - (i + 1) := by
  obtain ⟨he, -⟩ := List.getElem?_eq_some_iff.1 h
  rw [between, List.length_take, List.length_drop]
  omega

lemma span_eq (hi : i < e) (ho : text[i]? = some o) (hc : text[e]? = some c) :
    span text i e = o :: (between text i e ++ [c]) := by
  rw [span, drop_eq_cons ho, drop_eq_between hi hc, show e + 1 - i = e - (i + 1) + 1 + 1 by omega,
    List.take_succ_cons, ← length_between hi hc, List.take_length_add_append]
  rfl

/-- The search ends at the first bracket behind which as many have been closed as opened. -/
lemma closingIndex?_eq_some_iff :
    closingIndex? text i = some e ↔
      i < e ∧ (∃ c, text[e]? = some c ∧ isClose c = true) ∧ Balanced (between text i e) := by
  rw [closingIndex?, Option.map_eq_some_iff]
  constructor
  · rintro ⟨⟨body, rest⟩, hclose, rfl⟩
    obtain ⟨c, hdrop, hbody, hc⟩ := closeBracket_eq_some_iff.1 hclose
    have hget : text[i + 1 + body.length]? = some c := by
      rw [← List.getElem?_drop, hdrop, List.getElem?_append_right le_rfl, Nat.sub_self]
      rfl
    have hbetween : between text i (i + 1 + body.length) = body := by
      rw [between, hdrop, Nat.add_sub_cancel_left, List.take_left]
    simp only [hbetween]
    exact ⟨by omega, ⟨c, hget, hc⟩, hbody⟩
  · rintro ⟨hi, ⟨c, hget, hc⟩, hbody⟩
    refine ⟨(between text i e, text.drop (e + 1)),
      closeBracket_eq_some_iff.2 ⟨c, drop_eq_between hi hget, hbody, hc⟩, ?_⟩
    simp only [length_between hi hget]
    omega

/-- The bracket that closes one by its kind is where the search ends. -/
lemma Closes.closingIndex? (h : Closes text i e) : closingIndex? text i = some e := by
  obtain ⟨o, c, -, hc, hpair⟩ := h.pair
  exact closingIndex?_eq_some_iff.2 ⟨h.after, ⟨c, hc, hpair.isClose⟩, h.nested.balanced⟩

lemma closes_iff_not_crosses (ho : text[i]? = some o) (hopen : isOpen o = true)
    (h : closingIndex? text i = some e) : Closes text i e ↔ ¬ Crosses (span text i e) := by
  obtain ⟨hi, ⟨c, hc, hclose⟩, hbody⟩ := closingIndex?_eq_some_iff.1 h
  rw [span_eq hi ho hc, ← (Balanced.nested hopen hclose hbody .nil).nested_iff,
    nested_enclosed_iff hopen hclose hbody]
  constructor
  · rintro ⟨-, ⟨o', c', ho', hc', hpair⟩, hnested⟩
    obtain rfl := Option.some.inj (ho.symm.trans ho')
    obtain rfl := Option.some.inj (hc.symm.trans hc')
    exact ⟨hpair, hnested⟩
  · rintro ⟨hpair, hnested⟩
    exact ⟨hi, ⟨o, c, ho, hc, hpair⟩, hnested⟩

/-- A dollar sign before an opening bracket begins a reference, which is what stands between the
bracket and the index that the search finds. -/
lemma expandText_drop {ref : Bytes → Except Fault Expansion} (quoting : Bool) {j : Nat}
    (hdollar : text[j]? = some Ascii.dollar) (ho : text[j + 1]? = some o)
    (hopen : isOpen o = true) :
    expandText ref quoting none (text.drop j) =
      match closingIndex? text (j + 1) with
      | none => .error (.unterminated (text.drop j))
      | some e => inTurn (ref (between text (j + 1) e))
          (expandText ref quoting none (text.drop (e + 1))) := by
  have hbegin : text.drop j = Ascii.dollar :: o :: text.drop (j + 1 + 1) := by
    rw [drop_eq_cons hdollar, drop_eq_cons ho]
  cases hfound : closingIndex? text (j + 1) with
  | none =>
    rw [closingIndex?, Option.map_eq_none_iff] at hfound
    rw [hbegin, expandText_reference (by simp) (by simp) hopen, hfound]
  | some e =>
    obtain ⟨hi, ⟨c, hc, hclose⟩, hbody⟩ := closingIndex?_eq_some_iff.1 hfound
    rw [hbegin, drop_eq_between hi hc, expandText_body hbody hopen hclose (by simp) (by simp)]

end

/-- **A reference ends at a bracket of its own kind exactly if no brackets cross in it.**  Take any
opening bracket of any text.  If the search for its end finds nothing, then no index of the text
closes it.  If it finds an index, then there is a closing bracket, the text in between is balanced
if kinds are not told apart, and no other index closes the opening bracket; and this index does,
by its kind and with a nested text in between, exactly if on the way there no bracket is closed
by one of the other kind.  Behind a dollar sign, what is found is the end of a reference, and the
reference is refused as one without an end only if nothing is found. -/
theorem search_ends_at_own_bracket_iff {text : Bytes} {i : Nat} {o : UInt8}
    (ho : text[i]? = some o) (hopen : isOpen o = true) :
    (closingIndex? text i = none → ∀ e, ¬ Closes text i e) ∧
    (∀ e, closingIndex? text i = some e →
      i < e ∧ (∃ c, text[e]? = some c ∧ isClose c = true) ∧ Balanced (between text i e) ∧
      (∀ e', Closes text i e' → e' = e) ∧
      (Closes text i e ↔ ¬ Crosses (span text i e))) ∧
    ∀ j, i = j + 1 → text[j]? = some Ascii.dollar → ∀ ref quoting,
      expandText ref quoting none (text.drop j) =
        match closingIndex? text i with
        | none => .error (.unterminated (text.drop j))
        | some e =>
          inTurn (ref (between text i e)) (expandText ref quoting none (text.drop (e + 1))) := by
  refine ⟨fun hnone e h => ?_, fun e he => ?_, ?_⟩
  · rw [h.closingIndex?] at hnone
    cases hnone
  · obtain ⟨hi, hclose, hbody⟩ := closingIndex?_eq_some_iff.1 he
    refine ⟨hi, hclose, hbody, fun e' h => ?_, closes_iff_not_crosses ho hopen he⟩
    exact Option.some.inj (h.closingIndex?.symm.trans he)
  · rintro j rfl hdollar ref quoting
    exact expandText_drop quoting hdollar ho hopen

/-- A reference whose default refers to another name in brackets of the other kind, and one in
which the brackets cross. -/
theorem search_ends_at_own_bracket_iff_default :
    let text : Bytes := "$(A=$\x7bB\x7d)"
    let crossed : Bytes := "$\x7bA$(B\x7d)"
    (text[1]? = some Ascii.openParen ∧ closingIndex? text 1 = some 8 ∧ Closes text 1 8) ∧
      crossed[1]? = some Ascii.openBrace ∧ closingIndex? crossed 1 = some 7 ∧
      ∀ e, ¬ Closes crossed 1 e := by
  intro text crossed
  have ho : text[1]? = some Ascii.openParen := by decide +kernel
  have hfound : closingIndex? text 1 = some 8 := by decide +kernel
  have ho' : crossed[1]? = some Ascii.openBrace := by decide +kernel
  have hfound' : closingIndex? crossed 1 = some 7 := by decide +kernel
  refine ⟨⟨ho, hfound, ?_⟩, ho', hfound', fun e h => ?_⟩
  · have hspan : span text 1 8 = [40, 65, 61, 36, 123, 66, 125, 41] := by decide +kernel
    have hnested : Nested [40, 65, 61, 36, 123, 66, 125, 41] :=
      @Nested.nested 40 41 [65, 61, 36, 123, 66, 125] [] (.inl ⟨rfl, rfl⟩)
        (.byte rfl rfl (.byte rfl rfl (.byte rfl rfl
          (@Nested.nested 123 125 [66] [] (.inr ⟨rfl, rfl⟩) (.byte rfl rfl .nil) .nil)))) .nil
    refine (((search_ends_at_own_bracket_iff ho rfl).2.1 8 hfound).2.2.2.2).2 ?_
    exact hspan ▸ hnested.not_crosses
  · obtain ⟨-, -, -, honly, hcloses⟩ :=
      (search_ends_at_own_bracket_iff ho' rfl).2.1 7 hfound'
    obtain rfl := honly e h
    refine hcloses.1 h ⟨[123, 65, 36], 40, [66], 125, [41], ?_, rfl, rfl, .byte rfl rfl .nil, ?_⟩
    · decide +kernel
    · decide

/-- A brace ends a reference that a parenthesis has begun, and the name before it is taken: no
bracket of the text closes the parenthesis, but nothing is reported. -/
theorem brace_ends_parenthesis :
    let text : Bytes := "$(A\x7d"
    let lookup := ({ inner := [⟨"A", "alpha"⟩] } : Definitions).lookup fun _ => none
    text[1]? = some Ascii.openParen ∧ (∀ e, ¬ Closes text 1 e) ∧
      closingIndex? text 1 = some 3 ∧ text[3]? = some Ascii.closeBrace ∧
      expandDefined lookup text = .ok "alpha" := by
  intro text lookup
  have hfound : closingIndex? text 1 = some 3 := by decide +kernel
  have hclose : text[3]? = some Ascii.closeBrace := by decide +kernel
  have ho : text[1]? = some Ascii.openParen := by decide +kernel
  refine ⟨ho, fun e h => ?_, hfound, hclose, by decide +kernel⟩
  obtain rfl := Option.some.inj (h.closingIndex?.symm.trans hfound)
  obtain ⟨o, c, ho', hc', hpair⟩ := h.pair
  obtain rfl := Option.some.inj (ho.symm.trans ho')
  obtain rfl := Option.some.inj (hclose.symm.trans hc')
  exact absurd hpair (by decide)

end Substitution

end ConsoleShell
