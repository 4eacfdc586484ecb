/-
References within references.

The value of a name may refer to other names, and their values to further ones, up to a fixed
depth.  Names that refer to each other in a circle are followed until the depth is used up, so
a circle is always noticed, whatever stands around the references.  A chain of names that ends
in a text is followed to its end if it is no longer than the depth.
-/
import ConsoleShell.Proofs.Substitution.Concatenation

namespace ConsoleShell

namespace Substitution

open Line (Quoting isQuote)

/-- A name in which nothing can be mistaken for a part of a reference. -/
def Plain (name : Bytes) : Prop :=
  ∀ c ∈ name, c ≠ Ascii.dollar ∧ c ≠ Ascii.equals ∧ isOpen c = false ∧ isClose c = false

/-- The reference to a name. -/
def referenceTo (name : Bytes) : Bytes :=
  Ascii.dollar :: Ascii.openParen :: (name ++ [Ascii.closeParen])

/-! ### Plain names -/

namespace Plain

variable {name : Bytes} {c : UInt8}

lemma tail (h : Plain (c :: name)) : Plain name := (List.forall_mem_cons.1 h).2

lemma dollar_notMem (h : Plain name) : Ascii.dollar ∉ name := fun hmem => (h _ hmem).1 rfl

lemma balanced (h : Plain name) : Balanced name := by
  induction name with
  | nil => exact .nil
  | cons c name ih =>
    obtain ⟨-, -, hopen, hclose⟩ := h c List.mem_cons_self
    exact .byte hopen hclose (ih h.tail)

/-- The search for a default passes over a plain name. -/
lemma splitDefault_append (h : Plain name) (rest : Bytes) :
    splitDefault 0 (name ++ rest) = (name ++ (splitDefault 0 rest).1, (splitDefault 0 rest).2) := by
  induction name with
  | nil => rfl
  | cons c name ih =>
    obtain ⟨-, hequals, hopen, hclose⟩ := h c List.mem_cons_self
    rw [List.cons_append, splitDefault, if_neg (by simp [hequals])]
    simp only [hopen, hclose, Bool.false_eq_true, if_false, ih h.tail, List.cons_append]

/-- A plain name has no default. -/
lemma splitDefault_eq (h : Plain name) : splitDefault 0 name = (name, none) := by
  have hname := h.splitDefault_append []
  rwa [splitDefault, List.append_nil] at hname

end Plain

/-! ### Single references -/

section

variable {ref : Bytes → Except Fault Expansion} {body : Bytes} {quoting : Bool}
  {quote : Option UInt8}

/-- A reference with a balanced body is resolved, and what comes after it is expanded as it is
read. -/
lemma expandText_body (hbody : Balanced body) {o c : UInt8} (ho : isOpen o = true)
    (hc : isClose c = true) (hquote : quote ≠ some Ascii.dollar)
    (hsingle : quote ≠ some Ascii.singleQuote) (back : Bytes) :
    expandText ref quoting quote (Ascii.dollar :: o :: (body ++ c :: back)) =
      inTurn (ref body) (expandText ref quoting quote back) := by
  rw [expandText_reference hquote hsingle ho, hbody.closeBracket_body hc]
  simp only
  cases ref body <;> rfl

lemma expandText_referenceTo (hbody : Balanced body) (hquote : quote ≠ some Ascii.dollar)
    (hsingle : quote ≠ some Ascii.singleQuote) (back : Bytes) :
    expandText ref quoting quote (referenceTo body ++ back) =
      inTurn (ref body) (expandText ref quoting quote back) := by
  have hline : referenceTo body ++ back =
      Ascii.dollar :: Ascii.openParen :: (body ++ Ascii.closeParen :: back) := by
    simp [referenceTo]
  rw [hline, expandText_body hbody rfl rfl hquote hsingle]

end

/-! ### Values -/

section

variable {ref : Bytes → Except Fault Expansion} {s p : Bytes}

/-- What stands before the first dollar sign of a value is copied, quotes and backslashes like
everything else. -/
lemma expandText_value_append (h : Ascii.dollar ∉ p) :
    expandText ref false none (p ++ s) =
      (expandText ref false none s).map (Expansion.plain p).append := by
  induction p with
  | nil =>
    show expandText ref false none s = (expandText ref false none s).map _
    cases expandText ref false none s <;> rfl
  | cons c p ih =>
    obtain ⟨hc, hp⟩ := not_or.1 (mt List.mem_cons.2 h)
    rw [List.cons_append, expandText.eq_def]
    simp only [Bool.false_and, Bool.false_eq_true, if_false]
    rw [if_pos (by simp [Ne.symm hc]), ih hp, map_append]
    rfl

lemma expandText_value (h : Ascii.dollar ∉ p) : expandText ref false none p = .ok (.plain p) := by
  have happend := @expandText_value_append ref [] p h
  rw [List.append_nil] at happend
  rw [happend, expandText.eq_def]
  simp [Except.map, Expansion.append, Expansion.plain]

variable {lookup : Bytes → Option Bytes} {name value : Bytes}

/-- Where no level is left, no reference is resolved. -/
lemma reference_zero (body : Bytes) :
    reference lookup (expandLevel lookup 0) body = .error .tooDeep := by
  rw [reference]
  rfl

/-- With a level left, a plain name stands for what becomes of its value there. -/
lemma reference_succ (hname : Plain name) (hvalue : lookup name = some value) (n : Nat) :
    reference lookup (expandLevel lookup (n + 1)) name = expandLevel lookup (n + 1) value := by
  have hexpanded : expandLevel lookup (n + 1) name = .ok (.plain name) :=
    expandText_value hname.dollar_notMem
  rw [reference, hname.splitDefault_eq]
  simp only [hexpanded, Expansion.plain, hvalue]
  cases expandLevel lookup (n + 1) value <;> rfl

/-- A value is expanded up to its first reference, and then that is resolved one level further
in. -/
lemma expandLevel_reference (hp : Ascii.dollar ∉ p) (hname : Plain name) (n : Nat) (q : Bytes) :
    expandLevel lookup (n + 1) (p ++ referenceTo name ++ q) =
      (inTurn (reference lookup (expandLevel lookup n) name)
        (expandText (reference lookup (expandLevel lookup n)) false none q)).map
          (Expansion.plain p).append := by
  rw [expandLevel, List.append_assoc, expandText_value_append hp,
    expandText_referenceTo hname.balanced (by simp) (by simp)]

/-! ### Lines -/

/-- What neither opens a quote nor escapes anything leaves a line unquoted. -/
lemma read_bare_of_forall {text : Bytes}
    (h : ∀ c ∈ text, c ≠ Ascii.backslash ∧ isQuote c = false) :
    Quoting.read .bare text = .bare := by
  induction text with
  | nil => rfl
  | cons c text ih =>
    obtain ⟨⟨hback, hquote⟩, htext⟩ := List.forall_mem_cons.1 h
    rw [Quoting.read_cons, Quoting.byte, if_neg hback, if_neg (by simp [hquote]), ih htext]

/-- What has no dollar signs is copied. -/
lemma expandFrom_append_of_notMem {front : Bytes} (x : Quoting) (hfront : Ascii.dollar ∉ front)
    (back : Bytes) :
    expandFrom ref x (front ++ back) =
      (expandFrom ref (x.read front) back).map (Expansion.plain front).append := by
  -- a reference that begins before the end of the front would put a dollar sign into it
  refine expandFrom_append x front back ?_
  rintro p ⟨c, s, hs, rfl, -⟩ hp
  have hget := congrArg (fun l => l[p.length]?) hs
  simp only [List.getElem?_append_left hp, List.getElem?_append_right (Nat.le_refl _),
    Nat.sub_self] at hget
  exact absurd (List.mem_of_getElem? hget) hfront

/-- The first reference of a line that has no dollar signs, quotes and backslashes before it is
resolved, and then the rest of the line is expanded. -/
lemma expand_body {front body : Bytes}
    (hfront : ∀ c ∈ front, c ≠ Ascii.dollar ∧ c ≠ Ascii.backslash ∧ isQuote c = false)
    (hbody : Balanced body) (back : Bytes) :
    expand lookup (front ++ referenceTo body ++ back) =
      (inTurn (reference lookup (expandLevel lookup maxDepth) body) (expand lookup back)).map
        (Expansion.plain front).append := by
  have hcopied := @expandFrom_append_of_notMem
    (reference lookup (expandLevel lookup maxDepth)) front .bare
    (fun hmem => (hfront _ hmem).1 rfl) (referenceTo body ++ back)
  rw [read_bare_of_forall fun c hc => (hfront c hc).2] at hcopied
  rw [List.append_assoc]
  refine hcopied.trans (congrArg _ ?_)
  exact expandText_referenceTo hbody (by simp) (by simp) back

lemma expand_reference {front : Bytes}
    (hfront : ∀ c ∈ front, c ≠ Ascii.dollar ∧ c ≠ Ascii.backslash ∧ isQuote c = false)
    (hname : Plain name) (back : Bytes) :
    expand lookup (front ++ referenceTo name ++ back) =
      (inTurn (reference lookup (expandLevel lookup maxDepth) name) (expand lookup back)).map
        (Expansion.plain front).append :=
  expand_body hfront hname.balanced back

end

/-! ### Circles and chains -/

section

variable {lookup : Bytes → Option Bytes}

/-- Each of the names has a value, whose first reference is to another one of them. -/
def Circular (lookup : Bytes → Option Bytes) (names : Set Bytes) : Prop :=
  ∀ name ∈ names, ∃ p next q, lookup name = some (p ++ referenceTo next ++ q) ∧
    Ascii.dollar ∉ p ∧ next ∈ names ∧ Plain next

/-- Whatever is left of the depth, it does not suffice for a circle. -/
lemma reference_of_circular {names : Set Bytes} (h : Circular lookup names) (n : Nat) :
    ∀ name ∈ names, Plain name →
      reference lookup (expandLevel lookup n) name = .error .tooDeep := by
  induction n with
  | zero => exact fun name _ _ => reference_zero name
  | succ n ih =>
    intro name hmem hname
    obtain ⟨p, next, q, hvalue, hp, hnext, hplain⟩ := h name hmem
    rw [reference_succ hname hvalue, expandLevel_reference hp hplain, ih next hnext hplain]
    rfl

/-- The value of each of `n` names is a reference to the next one, and the value of the last
one is a text. -/
structure Chain (lookup : Bytes → Option Bytes) (n : Nat) (names : Nat → Bytes) (text : Bytes) :
    Prop where
  plain : ∀ i, 1 ≤ i → i ≤ n → Plain (names i)
  next : ∀ i, 1 ≤ i → i < n → lookup (names i) = some (referenceTo (names (i + 1)))
  last : lookup (names n) = some text
  text : Ascii.dollar ∉ text

/-- A chain is followed to its end if a level is left for each of its names. -/
lemma reference_of_chain {n : Nat} {names : Nat → Bytes} {text : Bytes}
    (h : Chain lookup n names text) (levels : Nat) {i : Nat} (hi : 1 ≤ i) (hn : i ≤ n) :
    reference lookup (expandLevel lookup levels) (names i) =
      if n < i + levels then .ok (.plain text) else .error .tooDeep := by
  induction levels generalizing i with
  | zero => rw [reference_zero, if_neg (by omega)]
  | succ levels ih =>
    rcases Nat.eq_or_lt_of_le hn with rfl | hlt
    · rw [reference_succ (h.plain i hi hn) h.last, if_pos (by omega)]
      exact expandText_value h.text
    · have hvalue : expandLevel lookup (levels + 1) (referenceTo (names (i + 1))) =
          reference lookup (expandLevel lookup levels) (names (i + 1)) := by
        have hlevel := @expandLevel_reference [] lookup (names (i + 1)) (by simp)
          (h.plain (i + 1) (by omega) hlt) levels []
        rw [List.nil_append, List.append_nil] at hlevel
        rw [hlevel, expandText_value (by simp)]
        cases reference lookup (expandLevel lookup levels) (names (i + 1)) <;>
          simp [inTurn, Except.bind, Except.map, Expansion.append, Expansion.plain]
      rw [reference_succ (h.plain i hi hn) (h.next i hi hlt), hvalue, ih (by omega) hlt,
        show i + 1 + levels = i + (levels + 1) by omega]

end

/-- **Circles of names are always noticed, and chains of names are followed to a fixed depth.**
Whatever is defined: where each of some names has a value whose first reference is to another of
them, a line whose first reference is to one of these names is refused as too deep, however many
names the circle goes through and wherever they are defined.  Where the value of each name but
the last is the reference to the next one, and that of the last is a text, the reference to the
first is replaced by the text if there are at most a hundred names, and else refused. -/
theorem expandDefined_of_nested (d : Definitions) (fallback : Bytes → Option Bytes) :
    (∀ names, Circular (d.lookup fallback) names → ∀ name ∈ names, Plain name → ∀ front back,
      (∀ c ∈ front, c ≠ Ascii.dollar ∧ c ≠ Ascii.backslash ∧ isQuote c = false) →
        expandDefined (d.lookup fallback) (front ++ referenceTo name ++ back) =
          .error (.fault .tooDeep)) ∧
    ∀ n names text, 1 ≤ n → Chain (d.lookup fallback) n names text →
      expandDefined (d.lookup fallback) (referenceTo (names 1)) =
        if n ≤ 100 then .ok text else .error (.fault .tooDeep) := by
  constructor
  · intro names hnames name hmem hname front back hfront
    have hline := @expand_reference (d.lookup fallback) name front hfront hname back
    rw [reference_of_circular hnames maxDepth name hmem hname] at hline
    rw [expandDefined, hline]
    rfl
  · intro n names text hn hchain
    have hline := @expand_reference (d.lookup fallback) (names 1) [] (by simp)
      (hchain.plain 1 le_rfl hn) []
    rw [reference_of_chain hchain maxDepth le_rfl hn, List.nil_append, List.append_nil] at hline
    rw [expandDefined, hline]
    by_cases hle : n ≤ 100
    · rw [if_pos (show n < 1 + 100 by omega), if_pos hle]
      simp [inTurn, expand, expandText, Except.bind, Except.map, Expansion.append,
        Expansion.plain]
    · rw [if_neg (show ¬ n < 1 + 100 by omega), if_neg hle]
      rfl

/-- A circle through a definition and the fallback, and names of one letter up to a hundred and
up to a hundred and one letters. -/
theorem expandDefined_of_nested_hundred_names :
    let d : Definitions := { inner := [⟨[65], referenceTo [65, 65]⟩] }
    let circle : Bytes → Option Bytes := fun _ => some (120 :: referenceTo [65])
    let ladder (n : Nat) : Bytes → Option Bytes := fun name =>
      some (if name.length < n then referenceTo (65 :: name) else [120])
    expandDefined (d.lookup circle) (referenceTo [65] ++ [121]) = .error (.fault .tooDeep) ∧
      expandDefined (({} : Definitions).lookup (ladder 100)) (referenceTo [65]) = .ok [120] ∧
      expandDefined (({} : Definitions).lookup (ladder 101)) (referenceTo [65]) =
        .error (.fault .tooDeep) := by
  intro d circle ladder
  have hplain (i : Nat) : Plain (List.replicate i 65) := by
    intro c hc
    rw [(List.mem_replicate.1 hc).2]
    decide
  have hcircle : Circular (d.lookup circle) {[65], [65, 65]} := by
    rintro name (rfl | rfl)
    · exact ⟨[], [65, 65], [], by rw [List.append_nil]; rfl, by simp, .inr rfl, hplain 2⟩
    · exact ⟨[120], [65], [], by rw [List.append_nil]; rfl, by decide, .inl rfl, hplain 1⟩
  have hladder (n : Nat) :
      Chain (({} : Definitions).lookup (ladder n)) n (List.replicate · 65) [120] := by
    refine ⟨fun i _ _ => hplain i, fun i _ hi => ?_, ?_, by decide⟩
    · show some (if (List.replicate i 65).length < n then _ else _) = _
      rw [List.length_replicate, if_pos hi]
      rfl
    · show some (if (List.replicate n 65).length < n then _ else _) = _
      rw [List.length_replicate, if_neg (Nat.lt_irrefl n)]
  refine ⟨?_, ?_, ?_⟩
  · exact (expandDefined_of_nested d circle).1 _ hcircle [65] (.inl rfl) (hplain 1) [] [121]
      (by simp)
  · exact (expandDefined_of_nested {} (ladder 100)).2 100 _ _ (by decide) (hladder 100)
  · exact (expandDefined_of_nested {} (ladder 101)).2 101 _ _ (by decide) (hladder 101)

end Substitution

end ConsoleShell
