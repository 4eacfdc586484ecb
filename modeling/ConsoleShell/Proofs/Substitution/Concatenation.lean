/-
Texts one after the other.

Replacing references is a homomorphism wherever a text is cut at a place that means nothing:
outside quotes, not after a backslash, not inside a reference, and not between the two bytes
with which a reference begins.  Reading a text up to such a place is a relation of its own,
which jumps over references without looking at what they stand for.
-/
import ConsoleShell.Proofs.Line.Expansion

namespace ConsoleShell

namespace Substitution

open Line (Quoting)

/-! ### Reading -/

/-- A text is read from its first byte, which is read in one way, up to where the next byte is
read in another.  References are jumped over: how their bytes are read does not matter. -/
inductive Reads : Quoting → Bytes → Quoting → Prop where
  | nil (x : Quoting) : Reads x [] x
  | copied {x y : Quoting} {c : UInt8} {s : Bytes} (h : Begins c s → x.Shields)
      (hs : Reads (x.byte c) s y) : Reads x (c :: s) y
  | reference {x y : Quoting} {o b : UInt8} {body rest : Bytes} (hx : x.Exposes)
      (ho : isOpen o = true) (hclose : closeBracket 0 (body ++ b :: rest) = some (body, rest))
      (hs : Reads x rest y) : Reads x (Ascii.dollar :: o :: (body ++ b :: rest)) y

/-- A text, read from its first byte on, may be cut off before another one: reading it ends
outside quotes, not after a backslash and not inside a reference, and it does not end with a
dollar sign that begins a reference together with the other text. -/
structure Seam (x : Quoting) (a b : Bytes) : Prop where
  outside : Reads x a .bare
  apart : ∀ front y, a = front ++ [Ascii.dollar] → Reads x front y → ¬ y.Shields →
    ∀ o s, b = o :: s → isOpen o = false

lemma Begins.append {c : UInt8} {s : Bytes} (h : Begins c s) (t : Bytes) : Begins c (s ++ t) := by
  obtain ⟨hc, o, r, rfl, ho⟩ := h
  exact ⟨hc, o, r ++ t, rfl, ho⟩

namespace Seam

variable {x : Quoting} {b s : Bytes} {c : UInt8}

/-- What begins no reference in a text begins none across its end. -/
lemma shields (h : Seam x (c :: s) b) (hc : Begins c s → x.Shields) (hb : Begins c (s ++ b)) :
    x.Shields := by
  obtain ⟨rfl, o, r, hs, ho⟩ := hb
  cases s with
  | cons d s =>
    obtain ⟨rfl, -⟩ := List.cons.inj hs
    exact hc ⟨rfl, d, s, rfl, ho⟩
  | nil =>
    by_contra hx
    rw [h.apart [] x rfl (.nil x) hx o r hs] at ho
    cases ho

lemma of_copied (h : Seam x (c :: s) b) (hc : Begins c s → x.Shields)
    (hs : Reads (x.byte c) s .bare) : Seam (x.byte c) s b where
  outside := hs
  apart front y hfront hy hshields := by
    refine h.apart (c :: front) y (by rw [hfront, List.cons_append]) (.copied ?_ hy) hshields
    exact fun hb => hc (hfront ▸ hb.append _)

lemma of_reference {o d : UInt8} {body rest : Bytes}
    (h : Seam x (Ascii.dollar :: o :: (body ++ d :: rest)) b) (hx : x.Exposes)
    (ho : isOpen o = true) (hclose : closeBracket 0 (body ++ d :: rest) = some (body, rest))
    (hs : Reads x rest .bare) : Seam x rest b where
  outside := hs
  apart front y hfront hy hshields := by
    refine h.apart (Ascii.dollar :: o :: (body ++ d :: front)) y (by simp [hfront]) ?_ hshields
    exact .reference hx ho (closeBracket_rest hclose front) hy

end Seam

/-! ### Expanding -/

section

variable {ref : Bytes → Except Fault Expansion}

/-- One expansion after the other, unless one fails; the first failure counts. -/
def inTurn (x y : Except Fault Expansion) : Except Fault Expansion :=
  x.bind fun e => y.map e.append

lemma inTurn_plain (y : Except Fault Expansion) : inTurn (.ok (.plain [])) y = y := by
  cases y <;> rfl

lemma inTurn_map (e : Expansion) (x y : Except Fault Expansion) :
    inTurn (x.map e.append) y = (inTurn x y).map e.append := by
  cases x <;> cases y <;> simp [inTurn, Except.bind, Except.map, Expansion.append]

/-- The texts on both sides of a seam are expanded one after the other. -/
lemma expandFrom_append_of_seam {x : Quoting} {a b : Bytes} (h : Seam x a b) :
    expandFrom ref x (a ++ b) = inTurn (expandFrom ref x a) (expandFrom ref .bare b) := by
  obtain ⟨y, hy, hreads⟩ : ∃ y, y = .bare ∧ Reads x a y := ⟨.bare, rfl, h.outside⟩
  induction hreads with
  | nil x =>
    subst hy
    rw [List.nil_append, expandFrom_nil, inTurn_plain]
  | copied hc hs ih =>
    subst hy
    rw [List.cons_append, expandFrom_copy _ _ _ (h.shields hc), expandFrom_copy _ _ _ hc,
      ih (h.of_copied hc hs) rfl, inTurn_map]
  | @reference x y o d body rest hx ho hclose hs ih =>
    subst hy
    -- the reference closes at the same place in the whole text
    have hclose' := closeBracket_rest hclose (rest ++ b)
    rw [show Ascii.dollar :: o :: (body ++ d :: rest) ++ b =
        Ascii.dollar :: o :: (body ++ d :: (rest ++ b)) by simp,
      expandFrom_reference hx ho, expandFrom_reference hx ho, hclose, hclose']
    cases hbody : ref body with
    | error f => simp only [hbody]; rfl
    | ok e => simp only [hbody]; rw [ih (h.of_reference hx ho hclose hs) rfl, inTurn_map]

end

/-- **Replacing references is a homomorphism at seams.**  Whatever is defined, and wherever a
line is cut outside quotes, not after a backslash and not inside a reference: if the first part
cannot be expanded, the line fails as it does; else if the second part cannot be expanded, the
line fails as that does; else the texts follow one another, and so do the names without a
value, in order.  The line as a whole is accepted if neither part has such names. -/
theorem expand_append_of_seam (d : Definitions) (fallback : Bytes → Option Bytes) (a b : Bytes)
    (h : Seam .bare a b) :
    (∀ f, expand (d.lookup fallback) a = .error f →
      expand (d.lookup fallback) (a ++ b) = .error f ∧
        expandDefined (d.lookup fallback) (a ++ b) = .error (.fault f)) ∧
    (∀ x f, expand (d.lookup fallback) a = .ok x → expand (d.lookup fallback) b = .error f →
      expand (d.lookup fallback) (a ++ b) = .error f ∧
        expandDefined (d.lookup fallback) (a ++ b) = .error (.fault f)) ∧
    ∀ x y, expand (d.lookup fallback) a = .ok x → expand (d.lookup fallback) b = .ok y →
      expand (d.lookup fallback) (a ++ b) = .ok ⟨x.text ++ y.text, x.undefined ++ y.undefined⟩ ∧
        expandDefined (d.lookup fallback) (a ++ b) =
          if x.undefined = [] ∧ y.undefined = [] then .ok (x.text ++ y.text)
          else .error (.undefined (x.undefined ++ y.undefined) (a ++ b)) := by
  have hline : expand (d.lookup fallback) (a ++ b) =
      inTurn (expand (d.lookup fallback) a) (expand (d.lookup fallback) b) :=
    expandFrom_append_of_seam h
  refine ⟨fun f ha => ?_, fun x f ha hb => ?_, fun x y ha hb => ?_⟩
  · have hfails : expand (d.lookup fallback) (a ++ b) = .error f := by rw [hline, ha]; rfl
    exact ⟨hfails, by rw [expandDefined, hfails]⟩
  · have hfails : expand (d.lookup fallback) (a ++ b) = .error f := by rw [hline, ha, hb]; rfl
    exact ⟨hfails, by rw [expandDefined, hfails]⟩
  · have hok : expand (d.lookup fallback) (a ++ b) =
        .ok ⟨x.text ++ y.text, x.undefined ++ y.undefined⟩ := by rw [hline, ha, hb]; rfl
    refine ⟨hok, ?_⟩
    rw [expandDefined, hok]
    simp only [List.isEmpty_iff, List.append_eq_nil_iff]

/-- The text `'$('$(A)` may be cut off before `$(B)`, although its quotes hold half a
reference; `A` has a value and `B` has none. -/
theorem expand_append_of_seam_half_reference_in_quotes :
    let d : Definitions := { inner := [⟨[65], [120]⟩] }
    expandDefined (d.lookup fun _ => none) ([39, 36, 40, 39, 36, 40, 65, 41] ++ [36, 40, 66, 41]) =
      .error (.undefined [[66]] [39, 36, 40, 39, 36, 40, 65, 41, 36, 40, 66, 41]) := by
  intro d
  have hreads : Reads .bare [39, 36, 40, 39, 36, 40, 65, 41] .bare := by
    refine .copied (fun h => absurd h.1 (by decide)) (.copied (fun _ => .inr rfl) ?_)
    refine .copied (fun h => absurd h.1 (by decide))
      (.copied (fun h => absurd h.1 (by decide)) ?_)
    exact @Reads.reference .bare .bare 40 41 [65] [] (.inl rfl) rfl rfl (.nil _)
  have hseam : Seam .bare [39, 36, 40, 39, 36, 40, 65, 41] [36, 40, 66, 41] :=
    ⟨hreads, fun front _ hfront => absurd (congrArg List.getLast? hfront) (by simp [Ascii.dollar])⟩
  refine ((expand_append_of_seam d (fun _ => none) _ _ hseam).2.2
    ⟨[39, 36, 40, 39, 120], []⟩ ⟨undefinedReference [66], [[66]]⟩ ?_ ?_).2
  · decide +kernel
  · decide +kernel

end Substitution

end ConsoleShell
