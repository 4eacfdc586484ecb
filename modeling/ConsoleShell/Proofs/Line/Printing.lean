/-
Printing command lines.

Every list of arguments and redirections can be written as a line that is split into
exactly these again.  A word is printed as a pair of quotes, so that it is a word even
when it is empty, and then each of its bytes after a backslash, so that none of them means
anything.  A redirection is printed as its operator and its name, and spaces stand between
the pieces.
-/
import ConsoleShell.Proofs.Line.Grammar

namespace ConsoleShell

namespace Line

/-- An argument or a redirection of a line. -/
inductive Piece where
  | argument (text : Bytes)
  | redirection (r : Redirection)
  deriving DecidableEq, Repr

/-- The arguments among the pieces, in order. -/
def Piece.arguments (ps : List Piece) : List Bytes :=
  ps.filterMap fun
    | .argument text => some text
    | .redirection _ => none

/-- The redirections among the pieces, in order. -/
def Piece.redirections (ps : List Piece) : List Redirection :=
  ps.filterMap fun
    | .argument _ => none
    | .redirection r => some r

/-- The word in quotes and backslashes. -/
def printWord (text : Bytes) : Bytes :=
  Ascii.doubleQuote :: Ascii.doubleQuote :: text.flatMap fun c => [Ascii.backslash, c]

/-- The operator of a redirection as it is written. -/
def printOperator (fd : Nat) : Mode → Bytes
  | .read => [Ascii.less]
  | .write => [Ascii.ofDigit fd, Ascii.greater]
  | .append => [Ascii.ofDigit fd, Ascii.greater, Ascii.greater]

/-- A piece as it is written. -/
def Piece.print : Piece → Bytes
  | .argument text => printWord text
  | .redirection r => printOperator r.fd r.mode ++ printWord r.name

/-- The pieces with spaces between them. -/
def printLine (ps : List Piece) : Bytes := Bytes.join [Ascii.space] (ps.map Piece.print)

/-- The redirection can be written: descriptor 0 is read, descriptors 1 to 9 are written. -/
def Expressible (r : Redirection) : Prop :=
  if r.mode = .read then r.fd = 0 else 1 ≤ r.fd ∧ r.fd ≤ 9

instance (r : Redirection) : Decidable (Expressible r) :=
  inferInstanceAs (Decidable (if r.mode = .read then r.fd = 0 else 1 ≤ r.fd ∧ r.fd ≤ 9))

/-! ### The symbols of a printed line -/

/-- The symbols of a printed word. -/
def wordSymbols (text : Bytes) : List Symbol := .part [] :: text.map fun c => .part [c]

/-- The symbols of a printed piece. -/
def Piece.symbols : Piece → List Symbol
  | .argument text => wordSymbols text
  | .redirection r => .operator ⟨r.fd, r.mode⟩ :: wordSymbols r.name

/-- The symbols of printed pieces with a separator between neighbours. -/
def lineSymbols : List Piece → List Symbol
  | [] => []
  | [p] => p.symbols
  | p :: q :: ps => p.symbols ++ .separator :: lineSymbols (q :: ps)

lemma lexed_printWord (text : Bytes) {s : Bytes} {ts : List Symbol} {e : Ending}
    (h : Lexed s ts e) : Lexed (printWord text ++ s) (wordSymbols text ++ ts) e := by
  have hbytes : Lexed ((text.flatMap fun c => [Ascii.backslash, c]) ++ s)
      ((text.map fun c => Symbol.part [c]) ++ ts) e := by
    induction text with
    | nil => exact h
    | cons c text ih => exact .escaped ih
  exact Lexed.quoted (by decide) (List.not_mem_nil) hbytes

/-- A digit that names a descriptor for output. -/
lemma ofDigit_mem_descriptors {fd : Nat} (h : 1 ≤ fd ∧ fd ≤ 9) :
    Ascii.ofDigit fd ∈ descriptors ∧ (Ascii.ofDigit fd).toNat - 48 = fd := by
  obtain ⟨h₁, h₉⟩ := h
  interval_cases fd <;> decide

lemma lexed_print {p : Piece} (hp : ∀ r, p = .redirection r → Expressible r) {s : Bytes}
    {ts : List Symbol} {e : Ending} (h : Lexed s ts e) :
    Lexed (p.print ++ s) (p.symbols ++ ts) e := by
  cases p with
  | argument text => exact lexed_printWord text h
  | redirection r =>
    obtain ⟨fd, mode, name⟩ := r
    have hname := lexed_printWord name h
    have hexp := hp _ rfl
    cases mode with
    | read =>
      obtain rfl : fd = 0 := hexp
      exact .input hname
    | write =>
      have hdigit : 1 ≤ fd ∧ fd ≤ 9 := hexp
      obtain ⟨hd, hfd⟩ := ofDigit_mem_descriptors hdigit
      have hnext : (printWord name ++ s).head? ≠ some Ascii.greater := by
        intro hc
        exact absurd (Option.some.inj hc) (by decide)
      have := Lexed.writeTo hd hnext hname
      rw [hfd] at this
      exact this
    | append =>
      have hdigit : 1 ≤ fd ∧ fd ≤ 9 := hexp
      obtain ⟨hd, hfd⟩ := ofDigit_mem_descriptors hdigit
      have := Lexed.appendTo hd hname
      rw [hfd] at this
      exact this

lemma lexed_printLine {ps : List Piece} (hps : ∀ r ∈ Piece.redirections ps, Expressible r) :
    Lexed (printLine ps) (lineSymbols ps) .complete := by
  have hpiece : ∀ p ∈ ps, ∀ r, p = .redirection r → Expressible r := by
    rintro p hp r rfl
    exact hps r (List.mem_filterMap.2 ⟨_, hp, rfl⟩)
  clear hps
  induction ps with
  | nil => exact .nil
  | cons p ps ih =>
    have hp := hpiece p (List.mem_cons_self ..)
    have hrest := ih fun q hq => hpiece q (List.mem_cons_of_mem _ hq)
    cases ps with
    | nil => simpa [printLine, Bytes.join, lineSymbols] using lexed_print hp .nil
    | cons q ps =>
      have hsep : Lexed (Ascii.space :: printLine (q :: ps)) (.separator :: lineSymbols (q :: ps))
          .complete := .separator (by decide) hrest
      simpa [printLine, Bytes.join, lineSymbols] using lexed_print hp hsep

/-! ### The words and operators of a printed line -/

/-- The words and operators of a piece. -/
def Piece.items : Piece → List Item
  | .argument text => [.word text]
  | .redirection r => [.operator ⟨r.fd, r.mode⟩, .word r.name]

/-- Neighbouring parts are one word. -/
lemma items_parts (before text : Bytes) {ts : List Symbol}
    (hts : ∀ more, ts.head? ≠ some (.part more)) :
    items (.part before :: ((text.map fun c => Symbol.part [c]) ++ ts)) =
      .word (before ++ text) :: items ts := by
  induction text generalizing before with
  | nil =>
    rw [List.map_nil, List.nil_append, items, List.append_nil]
    split
    · rename_i more _ _ hhead _
      exact absurd hhead (hts more)
    · rfl
  | cons c text ih =>
    rw [List.map_cons, List.cons_append, items_part_part, ih, List.append_assoc]
    rfl

lemma items_wordSymbols (text : Bytes) {ts : List Symbol}
    (hts : ∀ more, ts.head? ≠ some (.part more)) :
    items (wordSymbols text ++ ts) = .word text :: items ts :=
  items_parts [] text hts

lemma items_symbols (p : Piece) {ts : List Symbol} (hts : ∀ more, ts.head? ≠ some (.part more)) :
    items (p.symbols ++ ts) = p.items ++ items ts := by
  cases p with
  | argument text => exact items_wordSymbols text hts
  | redirection r => exact congrArg _ (items_wordSymbols r.name hts)

lemma items_lineSymbols (ps : List Piece) : items (lineSymbols ps) = ps.flatMap Piece.items := by
  induction ps with
  | nil => rfl
  | cons p ps ih =>
    cases ps with
    | nil =>
      have h := @items_symbols p [] (by simp)
      simpa [lineSymbols, items] using h
    | cons q ps =>
      rw [lineSymbols, items_symbols p (by simp), List.flatMap_cons, ← ih]
      rfl

/-! ### The verdict on a printed line -/

section Verdict

variable {done : List Item}

/-- What the items of pieces add to those before them. -/
lemma taken_items (ps : List Piece) (h : pendingOf done = none) :
    pendingOf (done ++ ps.flatMap Piece.items) = none ∧
      argumentsOf (done ++ ps.flatMap Piece.items) = argumentsOf done ++ Piece.arguments ps ∧
      redirectionsOf (done ++ ps.flatMap Piece.items) =
        redirectionsOf done ++ Piece.redirections ps := by
  induction ps generalizing done with
  | nil => simp [h, Piece.arguments, Piece.redirections]
  | cons p ps ih =>
    cases p with
    | argument text =>
      have hrest := ih (pendingOf_append_word done text)
      rw [argumentsOf_append_argument h, redirectionsOf_append_argument h] at hrest
      simpa [Piece.items, Piece.arguments, Piece.redirections] using hrest
    | redirection r =>
      have hpend := pendingOf_append_operator done ⟨r.fd, r.mode⟩
      have hrest := ih (pendingOf_append_word (done ++ [.operator ⟨r.fd, r.mode⟩]) r.name)
      rw [argumentsOf_append_target hpend, argumentsOf_append_operator,
        redirectionsOf_append_target hpend, redirectionsOf_append_operator] at hrest
      simpa [Piece.items, Piece.arguments, Piece.redirections] using hrest

/-- Pieces on distinct descriptors have no fault. -/
lemma firstFault_items (ps : List Piece) (h : pendingOf done = none)
    (hnodup : ((redirectionsOf done ++ Piece.redirections ps).map Redirection.fd).Nodup) :
    firstFault done (ps.flatMap Piece.items) = none := by
  induction ps generalizing done with
  | nil => rfl
  | cons p ps ih =>
    cases p with
    | argument text =>
      have hrest := ih (pendingOf_append_word done text)
        (by rw [redirectionsOf_append_argument h]; exact hnodup)
      have hfault : faultOf done (.word text) = none := by simp [faultOf, h]
      simpa [Piece.items, firstFault, hfault] using hrest
    | redirection r =>
      set opened := done ++ [.operator ⟨r.fd, r.mode⟩] with hopened
      have hpend : pendingOf opened = some ⟨r.fd, r.mode⟩ := pendingOf_append_operator done _
      have hr : redirectionsOf opened = redirectionsOf done := redirectionsOf_append_operator done _
      have hrest := ih (pendingOf_append_word opened r.name)
        (by rw [redirectionsOf_append_target hpend, hr]; simpa [Piece.redirections] using hnodup)
      have hfirst : faultOf done (.operator ⟨r.fd, r.mode⟩) = none := by simp [faultOf, h]
      have hfd : r.fd ∉ (redirectionsOf opened).map Redirection.fd := by
        intro hmem
        rw [hr] at hmem
        rw [List.map_append, List.nodup_append] at hnodup
        exact hnodup.2.2 _ hmem r.fd (by simp [Piece.redirections]) rfl
      have hsecond : faultOf opened (.word r.name) = none := by
        simp only [faultOf, hpend, if_neg hfd]
      simpa [Piece.items, firstFault, hfirst, hsecond, ← hopened] using hrest

/-- Pieces on distinct descriptors, of which there is one at least, are the arguments and the
redirections of their line. -/
lemma verdict_items {ps : List Piece} (hne : ps ≠ [])
    (hnodup : ((Piece.redirections ps).map Redirection.fd).Nodup) :
    verdict (ps.flatMap Piece.items) .complete =
      .ok ⟨Piece.arguments ps, byDescriptor (Piece.redirections ps)⟩ := by
  have hfault : firstFault [] (ps.flatMap Piece.items) = none := firstFault_items ps rfl hnodup
  obtain ⟨hpend, harguments, hredirections⟩ := @taken_items [] ps rfl
  rw [List.nil_append] at hpend hredirections harguments
  have hnonempty : (ps.flatMap Piece.items).isEmpty = false := by
    obtain ⟨p, ps, rfl⟩ := List.exists_cons_of_ne_nil hne
    cases p <;> rfl
  rw [verdict, hfault]
  simp only [hpend, hnonempty, hredirections, harguments]
  rfl

end Verdict

/-- **Every command line can be written.**  Arguments and redirections on distinct descriptors,
not both missing and in any order among each other, are printed as a line that is split into
these arguments and redirections. -/
theorem split_printLine (args : List Bytes) (rs : List Redirection)
    (hrs : ∀ r ∈ rs, Expressible r) (hfds : (rs.map Redirection.fd).Nodup)
    (hne : args ≠ [] ∨ rs ≠ []) (ps : List Piece) (hargs : Piece.arguments ps = args)
    (hperm : (Piece.redirections ps).Perm rs) :
    ∃ l, split (printLine ps) = .ok l ∧ l.words = args ∧ l.redirections.Perm rs ∧
      l.redirections.Pairwise fun a b => a.fd < b.fd := by
  have hlexed : Lexed (printLine ps) (lineSymbols ps) .complete :=
    lexed_printLine fun r hr => hrs r (hperm.mem_iff.1 hr)
  have hnodup : ((Piece.redirections ps).map Redirection.fd).Nodup :=
    (hperm.map Redirection.fd).nodup_iff.2 hfds
  have hpieces : ps ≠ [] := by
    rintro rfl
    rcases hne with hne | hne
    · exact hne hargs.symm
    · exact hne (List.nil_perm.1 hperm)
  refine ⟨⟨Piece.arguments ps, byDescriptor (Piece.redirections ps)⟩, ?_, hargs,
    (byDescriptor_perm _).trans hperm, byDescriptor_pairwise_lt hnodup⟩
  rw [split_of_lexed hlexed, items_lineSymbols, verdict_items hpieces hnodup]

/-- An argument that looks like an operator, an empty one and one with a quote and a backslash,
between redirections with a blank and an empty name. -/
theorem split_printLine_operators_in_words :
    ∃ l, split (printLine
        [.redirection ⟨2, .append, [32]⟩, .argument [50, 62, 62], .argument [],
          .redirection ⟨0, .read, []⟩, .argument [34, 92]]) = .ok l ∧
      l.words = [[50, 62, 62], [], [34, 92]] ∧
      l.redirections.Perm [⟨2, .append, [32]⟩, ⟨0, .read, []⟩] ∧
      l.redirections.Pairwise fun a b => a.fd < b.fd :=
  split_printLine _ _ (by decide) (by decide) (by decide) _ rfl (List.Perm.refl _)

end Line

end ConsoleShell
