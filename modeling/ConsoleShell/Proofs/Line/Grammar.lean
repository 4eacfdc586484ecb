/-
The grammar of command lines.

A line is described in two layers, neither of which knows the scanner.  The first layer
cuts the line into symbols: separators, redirection operators, and parts of words, which
are literal bytes or quoted stretches.  The second layer groups neighbouring parts into
words and looks at the sequence of words and operators: a word right after an operator
names its target, every other word is an argument, and the leftmost fault decides.

The main result is that the scanner computes exactly this: every line has a cut into
symbols, and whatever the cut, `split` answers the verdict on its words and operators.
-/
import ConsoleShell.Line
import Mathlib

namespace ConsoleShell

namespace Line

/-! ### Symbols -/

/-- What a stretch of a line stands for. -/
inductive Symbol where
  | separator
  | operator (op : Operator)
  /-- A literal byte or a quoted stretch, with the bytes that it adds to its word. -/
  | part (text : Bytes)
  deriving DecidableEq, Repr

/-- How a line ends. -/
inductive Ending where
  | complete
  /-- Inside quotes. -/
  | openQuote
  /-- With a backslash that has nothing to make literal. -/
  | danglingBackslash
  deriving DecidableEq, Repr

/-- The bytes that separate words. -/
def separators : List UInt8 :=
  [Ascii.space, Ascii.tab, Ascii.openParen, Ascii.closeParen, Ascii.comma, Ascii.carriageReturn]

/-- The bytes that group bytes into one word. -/
def quotes : List UInt8 := [Ascii.doubleQuote, Ascii.singleQuote]

/-- The digits from `1` to `9`, which may name a descriptor. -/
def descriptors : List UInt8 := [49, 50, 51, 52, 53, 54, 55, 56, 57]

/-- The bytes that are never literal outside quotes unless a backslash stands before them. -/
def special : List UInt8 :=
  Ascii.backslash :: Ascii.less :: Ascii.greater :: (separators ++ quotes)

/-- A line as a sequence of symbols, with how it ends. -/
inductive Lexed : Bytes → List Symbol → Ending → Prop where
  | nil : Lexed [] [] .complete
  | dangling : Lexed [Ascii.backslash] [] .danglingBackslash
  /-- A backslash makes the next byte literal. -/
  | escaped {c : UInt8} {s : Bytes} {ts : List Symbol} {e : Ending} (hs : Lexed s ts e) :
      Lexed (Ascii.backslash :: c :: s) (.part [c] :: ts) e
  /-- Between quotes every byte is literal, except the quote that opened them. -/
  | quoted {q : UInt8} {text s : Bytes} {ts : List Symbol} {e : Ending} (hq : q ∈ quotes)
      (htext : q ∉ text) (hs : Lexed s ts e) :
      Lexed (q :: (text ++ q :: s)) (.part text :: ts) e
  /-- Quotes that nothing closes go on to the end of the line. -/
  | unclosed {q : UInt8} {text : Bytes} (hq : q ∈ quotes) (htext : q ∉ text) :
      Lexed (q :: text) [.part text] .openQuote
  | separator {c : UInt8} {s : Bytes} {ts : List Symbol} {e : Ending} (hc : c ∈ separators)
      (hs : Lexed s ts e) : Lexed (c :: s) (.separator :: ts) e
  | input {s : Bytes} {ts : List Symbol} {e : Ending} (hs : Lexed s ts e) :
      Lexed (Ascii.less :: s) (.operator ⟨0, .read⟩ :: ts) e
  | write {s : Bytes} {ts : List Symbol} {e : Ending} (hnext : s.head? ≠ some Ascii.greater)
      (hs : Lexed s ts e) : Lexed (Ascii.greater :: s) (.operator ⟨1, .write⟩ :: ts) e
  | append {s : Bytes} {ts : List Symbol} {e : Ending} (hs : Lexed s ts e) :
      Lexed (Ascii.greater :: Ascii.greater :: s) (.operator ⟨1, .append⟩ :: ts) e
  /-- A digit right before `>` names the descriptor. -/
  | writeTo {d : UInt8} {s : Bytes} {ts : List Symbol} {e : Ending} (hd : d ∈ descriptors)
      (hnext : s.head? ≠ some Ascii.greater) (hs : Lexed s ts e) :
      Lexed (d :: Ascii.greater :: s) (.operator ⟨d.toNat - 48, .write⟩ :: ts) e
  | appendTo {d : UInt8} {s : Bytes} {ts : List Symbol} {e : Ending} (hd : d ∈ descriptors)
      (hs : Lexed s ts e) :
      Lexed (d :: Ascii.greater :: Ascii.greater :: s)
        (.operator ⟨d.toNat - 48, .append⟩ :: ts) e
  /-- Every other byte is literal. -/
  | literal {c : UInt8} {s : Bytes} {ts : List Symbol} {e : Ending} (hc : c ∉ special)
      (hnext : c ∈ descriptors → s.head? ≠ some Ascii.greater) (hs : Lexed s ts e) :
      Lexed (c :: s) (.part [c] :: ts) e

/-! ### Words and operators -/

/-- A word or an operator of a line. -/
inductive Item where
  | word (text : Bytes)
  | operator (op : Operator)
  deriving DecidableEq, Repr

/-- The words and operators of a sequence of symbols.  A word is a maximal run of parts: a
part that another part follows begins the word of that part. -/
def items : List Symbol → List Item
  | [] => []
  | .separator :: ts => items ts
  | .operator op :: ts => .operator op :: items ts
  | .part text :: ts =>
    match ts.head?, items ts with
    | some (.part _), .word more :: is => .word (text ++ more) :: is
    | _, is => .word text :: is

/-- Each item with the one before it, the first with a given one. -/
def withPrevious : Option Item → List Item → List (Option Item × Item)
  | _, [] => []
  | before, i :: is => (before, i) :: withPrevious (some i) is

/-- The redirection that an item completes: a word right after an operator names its target. -/
def redirectionOf : Option Item × Item → Option Redirection
  | (some (.operator op), .word text) => some ⟨op.fd, op.mode, text⟩
  | _ => none

/-- The argument that an item is: a word that is not right after an operator. -/
def argumentOf : Option Item × Item → Option Bytes
  | (some (.operator _), _) => none
  | (_, .word text) => some text
  | (_, .operator _) => none

/-- The redirections of a sequence of items, in order. -/
def redirectionsOf (is : List Item) : List Redirection :=
  (withPrevious none is).filterMap redirectionOf

/-- The arguments of a sequence of items, in order. -/
def argumentsOf (is : List Item) : List Bytes := (withPrevious none is).filterMap argumentOf

/-- The operator at the end of a sequence of items, which has no target yet. -/
def pendingOf (is : List Item) : Option Operator :=
  match is.getLast? with
  | some (.operator op) => some op
  | _ => none

/-- What is wrong with an item that comes after the items `done`: an operator where a target
must stand, or the target of a descriptor that has one already. -/
def faultOf (done : List Item) (i : Item) : Option Fault :=
  match pendingOf done, i with
  | some _, .operator _ => some .illegalRedirection
  | some op, .word _ =>
    if op.fd ∈ (redirectionsOf done).map Redirection.fd then some .duplicateRedirection else none
  | none, _ => none

/-- The fault of the leftmost item that has one, after the items `done`. -/
def firstFault (done : List Item) : List Item → Option Fault
  | [] => none
  | i :: is => (faultOf done i).or (firstFault (done ++ [i]) is)

/-- Redirections by increasing descriptor. -/
def byDescriptor (rs : List Redirection) : List Redirection :=
  rs.mergeSort fun a b => a.fd ≤ b.fd

/-- What is to be answered for a line with the given words and operators and ending. -/
def verdict (is : List Item) (e : Ending) : Except Fault Line :=
  match firstFault [] is with
  | some f => .error f
  | none =>
    if (pendingOf is).isSome then .error .illegalRedirection
    else match e with
      | .openQuote => .error .unbalancedQuote
      | .danglingBackslash => .error .trailingBackslash
      | .complete =>
        if is.isEmpty then .error .empty
        else .ok ⟨argumentsOf is, byDescriptor (redirectionsOf is)⟩

/-! ### The byte classes of the scanner -/

lemma isSeparator_iff (c : UInt8) : isSeparator c = true ↔ c ∈ separators := by
  simp [isSeparator, separators, or_assoc]

lemma isQuote_iff (c : UInt8) : isQuote c = true ↔ c ∈ quotes := by
  simp [isQuote, quotes]

lemma isDescriptor_iff (c : UInt8) : isDescriptor c = true ↔ c ∈ descriptors := by
  revert c
  decide +kernel

lemma not_mem_descriptors {c : UInt8} (h : c ∈ special) : c ∉ descriptors := by
  revert c
  decide +kernel

lemma outputOperator_append (fd : Nat) (s : Bytes) :
    outputOperator fd (Ascii.greater :: s) = (⟨fd, .append⟩, s) := rfl

lemma outputOperator_write (fd : Nat) {s : Bytes} (h : s.head? ≠ some Ascii.greater) :
    outputOperator fd s = (⟨fd, .write⟩, s) := by
  unfold outputOperator
  split
  · exact absurd rfl h
  · rfl

lemma operator?_greater (s : Bytes) :
    operator? Ascii.greater s = some (outputOperator 1 s) := rfl

lemma operator?_descriptor {d : UInt8} (hd : d ∈ descriptors) (s : Bytes) :
    operator? d (Ascii.greater :: s) = some (outputOperator (d.toNat - 48) s) := by
  have hless : d ≠ Ascii.less := by rintro rfl; exact absurd hd (by decide)
  have hgreater : d ≠ Ascii.greater := by rintro rfl; exact absurd hd (by decide)
  simp [operator?, hless, hgreater, (isDescriptor_iff d).2 hd]

lemma operator?_eq_none {c : UInt8} {s : Bytes} (hless : c ≠ Ascii.less)
    (hgreater : c ≠ Ascii.greater) (hnext : c ∈ descriptors → s.head? ≠ some Ascii.greater) :
    operator? c s = none := by
  unfold operator?
  rw [if_neg (by simpa using hless), if_neg (by simpa using hgreater)]
  split
  · rename_i hd
    split
    · exact absurd rfl (hnext ((isDescriptor_iff c).1 hd))
    · rfl
  · rfl

/-- Neither a quote nor a separator begins an operator. -/
lemma operator?_delimiter {c : UInt8} (hc : c ∈ separators ++ quotes) (s : Bytes) :
    operator? c s = none := by
  have hspecial : c ∈ special := by
    simp only [special, List.mem_cons]
    exact .inr (.inr (.inr hc))
  refine operator?_eq_none ?_ ?_ fun hd => absurd hd (not_mem_descriptors hspecial)
  · rintro rfl; exact absurd hc (by decide)
  · rintro rfl; exact absurd hc (by decide)

/-! ### The scanner on symbols -/

namespace Scan

/-- The scanner is outside quotes, and no backslash stands before the next byte. -/
def Open (st : Scan) : Prop := st.quote = none ∧ st.escaped = false

lemma endWord_quote (st : Scan) : st.endWord.quote = st.quote := by
  unfold endWord
  split
  · rfl
  · split <;> rfl

lemma endWord_escaped (st : Scan) : st.endWord.escaped = st.escaped := by
  unfold endWord
  split
  · rfl
  · split <;> rfl

lemma Open.endWord {st : Scan} (h : st.Open) : st.endWord.Open :=
  ⟨(endWord_quote st).trans h.1, (endWord_escaped st).trans h.2⟩

/-- What the scanner does when it begins or continues a word: nothing but the word and the
operator without target changes. -/
lemma extend_eq_ok {st st' : Scan} {text : Bytes} (h : st.extend text = .ok st') :
    ∃ w p, st' = { st with word := some w, pending := p } := by
  unfold extend at h
  split at h
  · obtain rfl := Except.ok.inj h
    exact ⟨_, _, rfl⟩
  · split at h
    · obtain rfl := Except.ok.inj h
      exact ⟨_, _, rfl⟩
    · split at h
      · exact absurd h (by simp)
      · obtain rfl := Except.ok.inj h
        exact ⟨_, _, rfl⟩

lemma Open.extend {st st' : Scan} {text : Bytes} (h : st.Open) (he : st.extend text = .ok st') :
    st'.Open := by
  obtain ⟨w, p, rfl⟩ := extend_eq_ok he
  exact h

lemma operator_eq_ok {st st' : Scan} {op : Operator} (h : st.operator op = .ok st') :
    st' = { st.endWord with pending := some op } := by
  unfold operator at h
  split at h
  · exact absurd h (by simp)
  · exact (Except.ok.inj h).symm

lemma Open.operator {st st' : Scan} {op : Operator} (h : st.Open)
    (he : st.operator op = .ok st') : st'.Open := by
  obtain rfl := operator_eq_ok he
  exact h.endWord

/-- Adding bytes in two pieces is adding them at once. -/
lemma extend_append (st : Scan) (a b : Bytes) :
    st.extend (a ++ b) = (st.extend a).bind fun st => st.extend b := by
  unfold extend
  cases hw : st.word with
  | some w => simp [Except.bind]
  | none =>
    cases hp : st.pending with
    | none => simp [Except.bind]
    | some op =>
      by_cases hd : st.redirections.any (·.fd == op.fd)
      · simp [hd, Except.bind]
      · simp [hd, Except.bind]

lemma extend_setQuote (st : Scan) (q : Option UInt8) (text : Bytes) :
    { st with quote := q }.extend text =
      (st.extend text).map fun st => { st with quote := q } := by
  unfold extend
  cases hw : st.word with
  | some w => rfl
  | none =>
    cases hp : st.pending with
    | none => rfl
    | some op =>
      by_cases hd : st.redirections.any (·.fd == op.fd)
      · simp [hd, Except.map]
      · simp [hd, Except.map]

/-! #### One byte outside quotes -/

variable {st : Scan} {c : UInt8}

lemma byte_backslash (h : st.Open) : st.byte Ascii.backslash = .ok { st with escaped := true } := by
  simp [byte, h.1, h.2]

lemma byte_separator (h : st.Open) (hc : c ∈ separators) : st.byte c = .ok st.endWord := by
  have hb : c ≠ Ascii.backslash := by rintro rfl; exact absurd hc (by decide)
  simp [byte, h.1, h.2, hb, (isSeparator_iff c).2 hc]

lemma byte_quote (h : st.Open) (hc : c ∈ quotes) :
    st.byte c = { st with quote := some c }.extend [] := by
  have hb : c ≠ Ascii.backslash := by rintro rfl; exact absurd hc (by decide)
  have hs : isSeparator c = false := by
    rw [Bool.eq_false_iff, ne_eq, isSeparator_iff]
    revert c
    decide +kernel
  simp [byte, h.1, h.2, hb, hs, (isQuote_iff c).2 hc]

lemma byte_literal (h : st.Open) (hc : c ∉ special) : st.byte c = st.extend [c] := by
  simp only [special, List.mem_cons, List.mem_append, not_or] at hc
  have hs : isSeparator c = false := by rw [Bool.eq_false_iff, ne_eq, isSeparator_iff]; exact hc.2.2.2.1
  have hq : isQuote c = false := by rw [Bool.eq_false_iff, ne_eq, isQuote_iff]; exact hc.2.2.2.2
  simp [byte, h.1, h.2, hc.1, hs, hq]

lemma byte_escaped (h : st.Open) (c : UInt8) :
    { st with escaped := true }.byte c = st.extend [c] := by
  obtain ⟨hq, he⟩ := h
  cases st
  simp_all [byte]

end Scan

/-! ### Runs of the scanner -/

lemma scan_nil (st : Scan) : scan st [] = .ok st := by
  rw [scan]

/-- Outside quotes an operator is taken as a whole. -/
lemma scan_operator {st : Scan} (h : st.Open) {c : UInt8} {s r : Bytes} {op : Operator}
    (hop : operator? c s = some (op, r)) :
    scan st (c :: s) = (st.operator op).bind fun st => scan st r := by
  rw [scan, if_pos (by simp [Scan.active, h.1, h.2])]
  split
  · rename_i op' r' hop'
    obtain ⟨rfl, rfl⟩ : op = op' ∧ r = r' := by simpa [hop] using hop'
    cases st.operator op <;> rfl
  · rename_i hnone
    exact absurd (hop.symm.trans hnone) (by simp)

/-- Every other byte is taken by itself. -/
lemma scan_byte {st : Scan} {c : UInt8} {s : Bytes}
    (h : st.active = true → operator? c s = none) :
    scan st (c :: s) = (st.byte c).bind fun st => scan st s := by
  rw [scan]
  split
  · rename_i ha
    split
    · rename_i op r hop
      exact absurd (hop.symm.trans (h ha)) (by simp)
    · cases st.byte c <;> rfl
  · cases st.byte c <;> rfl

/-- Inside quotes the bytes up to the closing quote go to the word. -/
lemma scan_quoted {q : UInt8} (text rest : Bytes) (htext : q ∉ text) {st : Scan} {w : Word}
    (hq : st.quote = some q) (hw : st.word = some w) :
    scan st (text ++ rest) =
      scan { st with word := some { w with text := w.text ++ text } } rest := by
  induction text generalizing st w with
  | nil =>
    cases st
    simp_all
  | cons c text ih =>
    have hc : c ≠ q := by rintro rfl; simp at htext
    have hbyte : st.byte c = .ok { st with word := some { w with text := w.text ++ [c] } } := by
      simp [Scan.byte, Scan.extend, hq, hw, hc]
    rw [List.cons_append, scan_byte (by simp [Scan.active, hq]), hbyte]
    have hrest : q ∉ text := fun h => htext (by simp [h])
    simpa [Except.bind] using
      @ih hrest { st with word := some { w with text := w.text ++ [c] } } _ hq rfl

/-- What the scanner does with symbols. -/
def feed (st : Scan) : List Symbol → Except Fault Scan
  | [] => .ok st
  | .separator :: ts => feed st.endWord ts
  | .operator op :: ts => (st.operator op).bind fun st => feed st ts
  | .part text :: ts => (st.extend text).bind fun st => feed st ts

/-- The answer for a line whose symbols have been taken and that ends in the given way. -/
def finishAs (e : Ending) (st : Scan) : Except Fault Line :=
  match e with
  | .complete => st.finish
  | .openQuote => if st.pending.isSome then .error .illegalRedirection else .error .unbalancedQuote
  | .danglingBackslash =>
    if st.pending.isSome then .error .illegalRedirection else .error .trailingBackslash

lemma finish_setQuote {st : Scan} (q : UInt8) :
    { st with quote := some q }.finish = finishAs .openQuote st := by
  simp [Scan.finish, finishAs]

lemma finish_setEscaped {st : Scan} (h : st.Open) :
    { st with escaped := true }.finish = finishAs .danglingBackslash st := by
  simp [Scan.finish, finishAs, h.1]

/-- The scanner on an opening quote and the text after it. -/
lemma scan_openQuote {q : UInt8} (hq : q ∈ quotes) (text rest : Bytes) (htext : q ∉ text)
    {st : Scan} (h : st.Open) :
    scan st (q :: (text ++ rest)) =
      (st.extend text).bind fun st => scan { st with quote := some q } rest := by
  rw [scan_byte (fun _ => operator?_delimiter (List.mem_append_right _ hq) _),
    Scan.byte_quote h hq, Scan.extend_setQuote]
  have hnil := Scan.extend_append st [] text
  rw [List.nil_append] at hnil
  rw [hnil]
  cases he : st.extend [] with
  | error f => rfl
  | ok st₁ =>
    obtain ⟨w, p, rfl⟩ := Scan.extend_eq_ok he
    exact scan_quoted text rest htext rfl rfl

/-- The rest of a line is scanned as its symbols are fed. -/
def Agrees (s : Bytes) (ts : List Symbol) (e : Ending) : Prop :=
  ∀ st : Scan, st.Open →
    ((scan st s).bind fun st => st.finish) = (feed st ts).bind (finishAs e)

lemma Agrees.operator {c : UInt8} {s r : Bytes} {op : Operator} {ts : List Symbol} {e : Ending}
    (hop : operator? c s = some (op, r)) (ih : Agrees r ts e) :
    Agrees (c :: s) (.operator op :: ts) e := by
  intro st h
  rw [scan_operator h hop, feed]
  cases he : st.operator op with
  | error f => rfl
  | ok st₁ => exact ih st₁ (h.operator he)

/-- Scanning a line is feeding its symbols. -/
lemma scan_lexed {s : Bytes} {ts : List Symbol} {e : Ending} (hs : Lexed s ts e) :
    Agrees s ts e := by
  induction hs with
  | nil =>
    intro st _
    rw [scan_nil]
    rfl
  | dangling =>
    intro st h
    rw [scan_byte (fun _ => rfl), Scan.byte_backslash h]
    show ((scan { st with escaped := true } []).bind fun st => st.finish) = _
    rw [scan_nil]
    exact finish_setEscaped h
  | @escaped c s ts e _ ih =>
    intro st h
    rw [scan_byte (fun _ => rfl), Scan.byte_backslash h]
    show ((scan { st with escaped := true } (c :: s)).bind fun st => st.finish) = _
    rw [scan_byte (by simp [Scan.active]), Scan.byte_escaped h, feed]
    cases he : st.extend [c] with
    | error f => rfl
    | ok st₁ => exact ih st₁ (h.extend he)
  | @quoted q text s ts e hq htext _ ih =>
    intro st h
    rw [scan_openQuote hq text _ htext h, feed]
    cases he : st.extend text with
    | error f => rfl
    | ok st₁ =>
      have h₁ := h.extend he
      have hbyte : { st₁ with quote := some q }.byte q = .ok st₁ := by
        cases st₁
        simp_all [Scan.byte, Scan.Open]
      show ((scan { st₁ with quote := some q } (q :: s)).bind fun st => st.finish) = _
      rw [scan_byte (by simp [Scan.active]), hbyte]
      exact ih st₁ h₁
  | @unclosed q text hq htext =>
    intro st h
    have hscan := scan_openQuote hq text [] htext h
    rw [List.append_nil] at hscan
    rw [hscan, feed]
    cases he : st.extend text with
    | error f => rfl
    | ok st₁ =>
      show ((scan { st₁ with quote := some q } []).bind fun st => st.finish) = _
      rw [scan_nil]
      exact finish_setQuote q
  | @separator c s ts e hc _ ih =>
    intro st h
    rw [scan_byte (fun _ => operator?_delimiter (List.mem_append_left _ hc) s),
      Scan.byte_separator h hc, feed]
    exact ih st.endWord h.endWord
  | input _ ih => exact .operator rfl ih
  | write hnext _ ih =>
    exact .operator (by rw [operator?_greater, outputOperator_write 1 hnext]) ih
  | append _ ih => exact .operator (by rw [operator?_greater, outputOperator_append]) ih
  | writeTo hd hnext _ ih =>
    exact .operator (by rw [operator?_descriptor hd, outputOperator_write _ hnext]) ih
  | appendTo hd _ ih =>
    exact .operator (by rw [operator?_descriptor hd, outputOperator_append]) ih
  | @literal c s ts e hc hnext _ ih =>
    intro st h
    have hop : operator? c s = none := by
      refine operator?_eq_none ?_ ?_ hnext
      · rintro rfl; exact absurd hc (by decide)
      · rintro rfl; exact absurd hc (by decide)
    rw [scan_byte (fun _ => hop), Scan.byte_literal h hc, feed]
    cases he : st.extend [c] with
    | error f => rfl
    | ok st₁ => exact ih st₁ (h.extend he)

/-! ### The scanner on words and operators -/

namespace Scan

lemma endWord_word (st : Scan) : st.endWord.word = none := by
  unfold endWord
  split
  · assumption
  · split <;> rfl

lemma endWord_pending (st : Scan) : st.endWord.pending = st.pending := by
  unfold endWord
  split
  · rfl
  · split <;> rfl

lemma endWord_of_word_eq_none {st : Scan} (h : st.word = none) : st.endWord = st := by
  simp [endWord, h]

lemma endWord_endWord (st : Scan) : st.endWord.endWord = st.endWord :=
  endWord_of_word_eq_none st.endWord_word

lemma operator_endWord (st : Scan) (op : Operator) : st.endWord.operator op = st.operator op := by
  simp only [operator, endWord_pending, endWord_endWord]

lemma word_of_operator {st st' : Scan} {op : Operator} (h : st.operator op = .ok st') :
    st'.word = none := by
  obtain rfl := operator_eq_ok h
  exact st.endWord_word

lemma finish_endWord (st : Scan) : st.endWord.finish = st.finish := by
  simp only [finish, endWord_pending, endWord_quote, endWord_escaped, endWord_endWord]

end Scan

lemma finishAs_endWord (e : Ending) (st : Scan) : finishAs e st.endWord = finishAs e st := by
  cases e with
  | complete => exact st.finish_endWord
  | openQuote => simp only [finishAs, Scan.endWord_pending]
  | danglingBackslash => simp only [finishAs, Scan.endWord_pending]

/-- Takes a word as a whole, or an operator. -/
def take (st : Scan) : Item → Except Fault Scan
  | .word text => (st.extend text).map Scan.endWord
  | .operator op => st.operator op

/-- Takes words and operators in order. -/
def takeAll (st : Scan) : List Item → Except Fault Scan
  | [] => .ok st
  | i :: is => (take st i).bind fun st => takeAll st is

lemma feed_part_part (st : Scan) (a b : Bytes) (ts : List Symbol) :
    feed st (.part a :: .part b :: ts) = feed st (.part (a ++ b) :: ts) := by
  simp only [feed]
  rw [Scan.extend_append]
  cases st.extend a <;> rfl

lemma items_part_part (a b : Bytes) (ts : List Symbol) :
    items (.part a :: .part b :: ts) = items (.part (a ++ b) :: ts) := by
  rw [items]
  simp only [List.head?_cons]
  rw [items, items]
  split <;> split <;> simp_all

/-- Feeding symbols is taking their words and operators.  The second part is about a word that
has begun; it carries the induction over a run of parts. -/
lemma feed_eq_takeAll (ts : List Symbol) :
    (∀ st : Scan, st.word = none → (feed st ts).map Scan.endWord = takeAll st (items ts)) ∧
      ∀ (st : Scan) (text : Bytes), st.word = none →
        (feed st (.part text :: ts)).map Scan.endWord = takeAll st (items (.part text :: ts)) := by
  induction ts with
  | nil =>
    refine ⟨fun st h => ?_, fun st text _ => ?_⟩
    · show Except.ok st.endWord = _
      rw [Scan.endWord_of_word_eq_none h]
      rfl
    · show ((st.extend text).bind fun st => .ok st).map Scan.endWord = (take st (.word text)).bind _
      rw [take]
      cases st.extend text <;> rfl
  | cons t ts ih =>
    obtain ⟨ihWord, ihPart⟩ := ih
    cases t with
    | separator =>
      refine ⟨fun st h => ?_, fun st text _ => ?_⟩
      · rw [feed, Scan.endWord_of_word_eq_none h]
        exact ihWord st h
      · show ((st.extend text).bind fun st => feed st.endWord ts).map Scan.endWord =
          (take st (.word text)).bind fun st => takeAll st (items ts)
        rw [take]
        cases st.extend text with
        | error f => rfl
        | ok st₁ => exact ihWord st₁.endWord st₁.endWord_word
    | operator op =>
      have step : ∀ st : Scan, ((st.operator op).bind fun st => feed st ts).map Scan.endWord =
          (st.operator op).bind fun st => takeAll st (items ts) := by
        intro st
        cases ho : st.operator op with
        | error f => rfl
        | ok st₁ => exact ihWord st₁ (Scan.word_of_operator ho)
      refine ⟨fun st _ => step st, fun st text _ => ?_⟩
      show ((st.extend text).bind fun st => (st.operator op).bind fun st => feed st ts).map
          Scan.endWord =
        (take st (.word text)).bind fun st =>
          (st.operator op).bind fun st => takeAll st (items ts)
      rw [take]
      cases st.extend text with
      | error f => rfl
      | ok st₁ =>
        show ((st₁.operator op).bind fun st => feed st ts).map Scan.endWord =
          (st₁.endWord.operator op).bind fun st => takeAll st (items ts)
        rw [Scan.operator_endWord]
        exact step st₁
    | part b =>
      refine ⟨fun st h => ihPart st b h, fun st text h => ?_⟩
      rw [feed_part_part, items_part_part]
      exact ihPart st (text ++ b) h

/-! ### Redirections in the order of descriptors -/

lemma insertRedirection_perm (r : Redirection) (rs : List Redirection) :
    (insertRedirection r rs).Perm (r :: rs) := by
  induction rs with
  | nil => exact List.Perm.refl _
  | cons x rs ih =>
    rw [insertRedirection]
    split
    · exact List.Perm.refl _
    · exact (ih.cons x).trans (List.Perm.swap r x rs)

lemma insertRedirection_pairwise {r : Redirection} {rs : List Redirection}
    (h : rs.Pairwise fun a b => a.fd ≤ b.fd) :
    (insertRedirection r rs).Pairwise fun a b => a.fd ≤ b.fd := by
  induction rs with
  | nil => exact List.pairwise_singleton _ _
  | cons x rs ih =>
    obtain ⟨hx, hrs⟩ := List.pairwise_cons.1 h
    rw [insertRedirection]
    split
    · rename_i hlt
      refine List.pairwise_cons.2 ⟨fun y hy => ?_, h⟩
      rcases List.mem_cons.1 hy with rfl | hy
      · exact Nat.le_of_lt hlt
      · exact Nat.le_trans (Nat.le_of_lt hlt) (hx y hy)
    · rename_i hge
      refine List.pairwise_cons.2 ⟨fun y hy => ?_, ih hrs⟩
      rcases List.mem_cons.1 ((insertRedirection_perm r rs).mem_iff.1 hy) with rfl | hy
      · exact Nat.not_lt.1 hge
      · exact hx y hy

lemma byDescriptor_perm (rs : List Redirection) : (byDescriptor rs).Perm rs :=
  List.mergeSort_perm _ _

lemma byDescriptor_pairwise (rs : List Redirection) :
    (byDescriptor rs).Pairwise fun a b => a.fd ≤ b.fd := by
  have h := @List.pairwise_mergeSort Redirection (fun a b => decide (a.fd ≤ b.fd))
    (fun a b c hab hbc => by simp only [decide_eq_true_eq] at *; omega)
    (fun a b => by simp only [Bool.or_eq_true, decide_eq_true_eq]; omega) rs
  simpa [byDescriptor] using h

lemma byDescriptor_pairwise_lt {rs : List Redirection} (h : (rs.map Redirection.fd).Nodup) :
    (byDescriptor rs).Pairwise fun a b => a.fd < b.fd := by
  have hnodup : ((byDescriptor rs).map Redirection.fd).Nodup :=
    ((byDescriptor_perm rs).map Redirection.fd).nodup_iff.2 h
  have hne : (byDescriptor rs).Pairwise fun a b => a.fd ≠ b.fd := List.pairwise_map.1 hnodup
  exact ((byDescriptor_pairwise rs).and hne).imp fun hab => Nat.lt_of_le_of_ne hab.1 hab.2

/-- Two redirections of a list with distinct descriptors are equal if their descriptors are. -/
lemma eq_of_fd_eq {rs : List Redirection} (h : (rs.map Redirection.fd).Nodup) {a b : Redirection}
    (ha : a ∈ rs) (hb : b ∈ rs) (hab : a.fd = b.fd) : a = b :=
  List.inj_on_of_nodup_map h ha hb hab

lemma insertRedirection_byDescriptor {r : Redirection} {rs : List Redirection}
    (h : ((rs ++ [r]).map Redirection.fd).Nodup) :
    insertRedirection r (byDescriptor rs) = byDescriptor (rs ++ [r]) := by
  have hperm : (insertRedirection r (byDescriptor rs)).Perm (rs ++ [r]) :=
    (insertRedirection_perm r _).trans
      (((byDescriptor_perm rs).cons r).trans (List.perm_append_singleton r rs).symm)
  refine List.Perm.eq_of_pairwise (fun a b ha hb hab hba => ?_)
    (insertRedirection_pairwise (byDescriptor_pairwise rs)) (byDescriptor_pairwise _)
    (hperm.trans (byDescriptor_perm _).symm)
  exact eq_of_fd_eq h (hperm.mem_iff.1 ha) ((byDescriptor_perm _).mem_iff.1 hb)
    (Nat.le_antisymm hab hba)

/-! ### The state of the scanner after words and operators -/

lemma withPrevious_append (before : Option Item) (is : List Item) (i : Item) :
    withPrevious before (is ++ [i]) = withPrevious before is ++ [(is.getLast?.or before, i)] := by
  induction is generalizing before with
  | nil => rfl
  | cons j is ih =>
    rw [List.cons_append, withPrevious, withPrevious, ih, List.cons_append, List.getLast?_cons]
    cases is.getLast? <;> rfl

lemma redirectionsOf_append (is : List Item) (i : Item) :
    redirectionsOf (is ++ [i]) = redirectionsOf is ++ (redirectionOf (is.getLast?, i)).toList := by
  rw [redirectionsOf, withPrevious_append, List.filterMap_append, Option.or_none]
  cases h : redirectionOf (is.getLast?, i) <;> simp [redirectionsOf, h]

lemma argumentsOf_append (is : List Item) (i : Item) :
    argumentsOf (is ++ [i]) = argumentsOf is ++ (argumentOf (is.getLast?, i)).toList := by
  rw [argumentsOf, withPrevious_append, List.filterMap_append, Option.or_none]
  cases h : argumentOf (is.getLast?, i) <;> simp [argumentsOf, h]

lemma pendingOf_append_word (is : List Item) (text : Bytes) :
    pendingOf (is ++ [.word text]) = none := by
  simp [pendingOf]

lemma pendingOf_append_operator (is : List Item) (op : Operator) :
    pendingOf (is ++ [.operator op]) = some op := by
  simp [pendingOf]

lemma pendingOf_eq_some {is : List Item} {op : Operator} :
    pendingOf is = some op ↔ is.getLast? = some (.operator op) := by
  unfold pendingOf
  split
  · rename_i op' h
    simp [h]
  · rename_i h
    constructor
    · intro h'
      exact absurd h' (by simp)
    · intro h'
      exact absurd h' (h op)

lemma getLast?_ne_operator {is : List Item} (h : pendingOf is = none) (op : Operator) :
    is.getLast? ≠ some (.operator op) := by
  intro hop
  rw [← pendingOf_eq_some, h] at hop
  exact absurd hop (by simp)

lemma redirectionsOf_append_argument {is : List Item} (h : pendingOf is = none) (text : Bytes) :
    redirectionsOf (is ++ [.word text]) = redirectionsOf is := by
  rw [redirectionsOf_append]
  rcases hl : is.getLast? with _ | (w | op)
  · exact List.append_nil _
  · exact List.append_nil _
  · exact absurd hl (getLast?_ne_operator h op)

lemma argumentsOf_append_argument {is : List Item} (h : pendingOf is = none) (text : Bytes) :
    argumentsOf (is ++ [.word text]) = argumentsOf is ++ [text] := by
  rw [argumentsOf_append]
  rcases hl : is.getLast? with _ | (w | op)
  · rfl
  · rfl
  · exact absurd hl (getLast?_ne_operator h op)

lemma redirectionsOf_append_target {is : List Item} {op : Operator} (h : pendingOf is = some op)
    (text : Bytes) :
    redirectionsOf (is ++ [.word text]) = redirectionsOf is ++ [⟨op.fd, op.mode, text⟩] := by
  rw [redirectionsOf_append, pendingOf_eq_some.1 h]
  rfl

lemma argumentsOf_append_target {is : List Item} {op : Operator} (h : pendingOf is = some op)
    (text : Bytes) : argumentsOf (is ++ [.word text]) = argumentsOf is := by
  rw [argumentsOf_append, pendingOf_eq_some.1 h]
  exact List.append_nil _

lemma redirectionsOf_append_operator (is : List Item) (op : Operator) :
    redirectionsOf (is ++ [.operator op]) = redirectionsOf is := by
  rw [redirectionsOf_append]
  rcases is.getLast? with _ | (w | op') <;> exact List.append_nil _

lemma argumentsOf_append_operator (is : List Item) (op : Operator) :
    argumentsOf (is ++ [.operator op]) = argumentsOf is := by
  rw [argumentsOf_append]
  rcases is.getLast? with _ | (w | op') <;> exact List.append_nil _

/-- The scanner has taken the items `done` without finding a fault. -/
structure Taken (st : Scan) (done : List Item) : Prop where
  isOpen : st.Open
  word : st.word = none
  words : st.words = argumentsOf done
  redirections : st.redirections = byDescriptor (redirectionsOf done)
  pending : st.pending = pendingOf done
  nodup : ((redirectionsOf done).map Redirection.fd).Nodup

lemma taken_nil : Taken {} [] where
  isOpen := ⟨rfl, rfl⟩
  word := rfl
  words := rfl
  redirections := by simp [byDescriptor, redirectionsOf, withPrevious]
  pending := rfl
  nodup := List.nodup_nil

namespace Taken

variable {st : Scan} {done : List Item}

lemma any_fd_iff (h : Taken st done) (fd : Nat) :
    st.redirections.any (·.fd == fd) = true ↔ fd ∈ (redirectionsOf done).map Redirection.fd := by
  rw [h.redirections, List.any_eq_true, List.mem_map]
  simp only [beq_iff_eq, (byDescriptor_perm _).mem_iff]

lemma take_argument (h : Taken st done) (hp : pendingOf done = none) (text : Bytes) :
    ∃ st', take st (.word text) = .ok st' ∧ Taken st' (done ++ [.word text]) := by
  have hr := redirectionsOf_append_argument hp text
  refine ⟨{ st with words := st.words ++ [text], word := none }, ?_, ?_⟩
  · have hext : st.extend text = .ok { st with word := some ⟨none, text⟩ } := by
      simp only [Scan.extend, h.word, h.pending.trans hp]
    rw [take, hext]
    rfl
  · exact
      { isOpen := h.isOpen
        word := rfl
        words := by rw [argumentsOf_append_argument hp, ← h.words]
        redirections := by rw [hr]; exact h.redirections
        pending := by rw [pendingOf_append_word]; exact h.pending.trans hp
        nodup := by rw [hr]; exact h.nodup }

lemma take_target (h : Taken st done) {op : Operator} (hp : pendingOf done = some op)
    (hfd : op.fd ∉ (redirectionsOf done).map Redirection.fd) (text : Bytes) :
    ∃ st', take st (.word text) = .ok st' ∧ Taken st' (done ++ [.word text]) := by
  have hr := redirectionsOf_append_target hp text
  have hnodup : ((redirectionsOf (done ++ [.word text])).map Redirection.fd).Nodup := by
    rw [hr, List.map_append, List.nodup_append]
    refine ⟨h.nodup, List.nodup_singleton _, ?_⟩
    rintro a ha b hb rfl
    obtain rfl : a = op.fd := by simpa using hb
    exact hfd ha
  have hany : st.redirections.any (·.fd == op.fd) = false := by
    rw [Bool.eq_false_iff, ne_eq, h.any_fd_iff]
    exact hfd
  refine ⟨{ st with
    redirections := insertRedirection ⟨op.fd, op.mode, text⟩ st.redirections,
    word := none, pending := none }, ?_, ?_⟩
  · have hext : st.extend text =
        .ok { st with word := some ⟨some op, text⟩, pending := none } := by
      simp only [Scan.extend, h.word, h.pending.trans hp, hany]
      rfl
    rw [take, hext]
    rfl
  · exact
      { isOpen := h.isOpen
        word := rfl
        words := h.words.trans (argumentsOf_append_target hp text).symm
        redirections := by
          show insertRedirection _ st.redirections = _
          rw [h.redirections, hr, insertRedirection_byDescriptor (hr ▸ hnodup)]
        pending := (pendingOf_append_word _ _).symm
        nodup := hnodup }

lemma take_operator (h : Taken st done) (hp : pendingOf done = none) (op : Operator) :
    ∃ st', take st (.operator op) = .ok st' ∧ Taken st' (done ++ [.operator op]) := by
  have hr := redirectionsOf_append_operator done op
  refine ⟨{ st with pending := some op }, ?_, ?_⟩
  · show st.operator op = _
    rw [Scan.operator, h.pending.trans hp, Scan.endWord_of_word_eq_none h.word]
  · exact
      { isOpen := h.isOpen
        word := h.word
        words := h.words.trans (argumentsOf_append_operator done op).symm
        redirections := by rw [hr]; exact h.redirections
        pending := (pendingOf_append_operator _ _).symm
        nodup := by rw [hr]; exact h.nodup }

/-- One item is taken, or its fault is answered. -/
lemma take_item (h : Taken st done) (i : Item) :
    (∀ f, faultOf done i = some f → take st i = .error f) ∧
      (faultOf done i = none → ∃ st', take st i = .ok st' ∧ Taken st' (done ++ [i])) := by
  cases hp : pendingOf done with
  | none =>
    cases i with
    | word text => exact ⟨by simp [faultOf, hp], fun _ => h.take_argument hp text⟩
    | operator op => exact ⟨by simp [faultOf, hp], fun _ => h.take_operator hp op⟩
  | some op =>
    have hpend := h.pending.trans hp
    cases i with
    | operator op' =>
      refine ⟨?_, by simp [faultOf, hp]⟩
      intro f hf
      obtain rfl : .illegalRedirection = f := by simpa [faultOf, hp] using hf
      show st.operator op' = _
      rw [Scan.operator, hpend]
    | word text =>
      by_cases hfd : op.fd ∈ (redirectionsOf done).map Redirection.fd
      · refine ⟨?_, by simp only [faultOf, hp, if_pos hfd]; simp⟩
        intro f hf
        obtain rfl : .duplicateRedirection = f := by
          simpa only [faultOf, hp, if_pos hfd, Option.some.injEq] using hf
        simp only [take, Scan.extend, h.word, hpend, (h.any_fd_iff op.fd).2 hfd, if_true]
        rfl
      · refine ⟨?_, fun _ => h.take_target hp hfd text⟩
        intro f hf
        exact absurd hf (by simp only [faultOf, hp, if_neg hfd]; simp)

/-- All items are taken, or the leftmost fault is answered. -/
lemma takeAll_items (is : List Item) {st : Scan} {done : List Item} (h : Taken st done) :
    (∀ f, firstFault done is = some f → takeAll st is = .error f) ∧
      (firstFault done is = none → ∃ st', takeAll st is = .ok st' ∧ Taken st' (done ++ is)) := by
  induction is generalizing st done with
  | nil => exact ⟨by simp [firstFault], fun _ => ⟨st, rfl, by simpa using h⟩⟩
  | cons i is ih =>
    obtain ⟨hfault, hgood⟩ := h.take_item i
    cases hi : faultOf done i with
    | some f =>
      refine ⟨fun g hg => ?_, by simp [firstFault, hi]⟩
      obtain rfl : f = g := by simpa [firstFault, hi] using hg
      rw [takeAll, hfault f hi]
      rfl
    | none =>
      obtain ⟨st₁, htake, h₁⟩ := hgood hi
      have hall : takeAll st (i :: is) = takeAll st₁ is := by rw [takeAll, htake]; rfl
      have hrest := ih h₁
      rw [List.append_assoc, List.singleton_append] at hrest
      rw [hall, firstFault, hi]
      exact hrest

/-- Items that do not end in an operator hold an argument or a redirection. -/
lemma isEmpty_iff (h : Taken st done) (hp : pendingOf done = none) :
    (st.words.isEmpty && st.redirections.isEmpty) = done.isEmpty := by
  rcases List.eq_nil_or_concat' done with rfl | ⟨is, i, rfl⟩
  · rw [h.words, h.redirections]
    simp [argumentsOf, redirectionsOf, withPrevious, byDescriptor]
  · cases i with
    | operator op =>
      rw [pendingOf_append_operator] at hp
      exact absurd hp (by simp)
    | word text =>
      have hsome : argumentsOf (is ++ [.word text]) ≠ [] ∨
          redirectionsOf (is ++ [.word text]) ≠ [] := by
        cases hq : pendingOf is with
        | none => exact Or.inl (by simp [argumentsOf_append_argument hq])
        | some op => exact Or.inr (by simp [redirectionsOf_append_target hq])
      have hlen := (byDescriptor_perm (redirectionsOf (is ++ [.word text]))).length_eq
      rw [h.words, h.redirections]
      rcases hsome with ha | hr
      · simp [List.isEmpty_eq_false_iff.2 ha]
      · have hne : byDescriptor (redirectionsOf (is ++ [.word text])) ≠ [] := by
          intro hnil
          rw [hnil, List.length_nil] at hlen
          exact hr (List.length_eq_zero_iff.1 hlen.symm)
        simp [List.isEmpty_eq_false_iff.2 hne]

lemma finishAs_eq (h : Taken st done) (e : Ending) :
    finishAs e st =
      if (pendingOf done).isSome then .error .illegalRedirection
      else match e with
        | .openQuote => .error .unbalancedQuote
        | .danglingBackslash => .error .trailingBackslash
        | .complete =>
          if done.isEmpty then .error .empty
          else .ok ⟨argumentsOf done, byDescriptor (redirectionsOf done)⟩ := by
  cases hp : pendingOf done with
  | some op =>
    have hpend := h.pending.trans hp
    cases e <;> simp [finishAs, Scan.finish, hpend]
  | none =>
    have hpend := h.pending.trans hp
    cases e with
    | openQuote => simp [finishAs, hpend]
    | danglingBackslash => simp [finishAs, hpend]
    | complete =>
      have hempty := h.isEmpty_iff hp
      simp only [finishAs, Scan.finish, hpend, h.isOpen.1, h.isOpen.2,
        Scan.endWord_of_word_eq_none h.word, hempty]
      rw [← h.words, ← h.redirections]
      rfl

end Taken

/-- The scanner's answer for a line is the verdict on its words and operators. -/
lemma split_of_lexed {line : Bytes} {ts : List Symbol} {e : Ending} (h : Lexed line ts e) :
    split line = verdict (items ts) e := by
  have hsplit : split line = (scan {} line).bind fun st => st.finish := by
    rw [split]
    cases scan {} line <;> rfl
  have hitems : (feed {} ts).bind (finishAs e) = (takeAll {} (items ts)).bind (finishAs e) := by
    rw [← (feed_eq_takeAll ts).1 {} rfl]
    cases feed {} ts with
    | error f => rfl
    | ok st => exact (finishAs_endWord e st).symm
  rw [hsplit, scan_lexed h {} ⟨rfl, rfl⟩, hitems, verdict.eq_def]
  obtain ⟨hfault, hgood⟩ := taken_nil.takeAll_items (items ts)
  cases hf : firstFault [] (items ts) with
  | some f =>
    rw [hfault f hf]
    rfl
  | none =>
    obtain ⟨st, htake, hst⟩ := hgood hf
    rw [htake]
    exact hst.finishAs_eq e

/-- A line without faults has at most one redirection of each descriptor. -/
lemma nodup_of_firstFault {is : List Item} (h : firstFault [] is = none) :
    ((redirectionsOf is).map Redirection.fd).Nodup := by
  obtain ⟨st, -, hst⟩ := (taken_nil.takeAll_items is).2 h
  exact hst.nodup

/-! ### Every line is a sequence of symbols -/

lemma exists_lexed (line : Bytes) : ∃ ts e, Lexed line ts e := by
  -- an operator and an escape take several bytes, and a quoted stretch any number of them
  induction hn : line.length using Nat.strong_induction_on generalizing line with
  | _ n ih =>
    have rest : ∀ s : Bytes, s.length < n → ∃ ts e, Lexed s ts e := fun s hs => ih _ hs s rfl
    cases line with
    | nil => exact ⟨_, _, .nil⟩
    | cons c s =>
      rw [List.length_cons] at hn
      obtain ⟨ts, e, hs⟩ := rest s (by omega)
      by_cases hbackslash : c = Ascii.backslash
      · subst hbackslash
        cases s with
        | nil => exact ⟨_, _, .dangling⟩
        | cons d r =>
          rw [List.length_cons] at hn
          obtain ⟨us, e', hr⟩ := rest r (by omega)
          exact ⟨_, _, .escaped hr⟩
      by_cases hquote : c ∈ quotes
      · by_cases hmem : c ∈ s
        · obtain ⟨text, r, rfl, htext⟩ := List.eq_append_cons_of_mem hmem
          rw [List.length_append, List.length_cons] at hn
          obtain ⟨us, e', hr⟩ := rest r (by omega)
          exact ⟨_, _, .quoted hquote htext hr⟩
        · exact ⟨_, _, .unclosed hquote hmem⟩
      by_cases hseparator : c ∈ separators
      · exact ⟨_, _, .separator hseparator hs⟩
      by_cases hless : c = Ascii.less
      · subst hless
        exact ⟨_, _, .input hs⟩
      by_cases hgreater : c = Ascii.greater
      · subst hgreater
        by_cases hnext : s.head? = some Ascii.greater
        · obtain ⟨r, rfl⟩ := List.head?_eq_some_iff.1 hnext
          rw [List.length_cons] at hn
          obtain ⟨us, e', hr⟩ := rest r (by omega)
          exact ⟨_, _, .append hr⟩
        · exact ⟨_, _, .write hnext hs⟩
      by_cases hfd : c ∈ descriptors ∧ s.head? = some Ascii.greater
      · obtain ⟨hd, hnext⟩ := hfd
        obtain ⟨r, rfl⟩ := List.head?_eq_some_iff.1 hnext
        rw [List.length_cons] at hn
        by_cases hsecond : r.head? = some Ascii.greater
        · obtain ⟨r', rfl⟩ := List.head?_eq_some_iff.1 hsecond
          rw [List.length_cons] at hn
          obtain ⟨us, e', hr⟩ := rest r' (by omega)
          exact ⟨_, _, .appendTo hd hr⟩
        · obtain ⟨us, e', hr⟩ := rest r (by omega)
          exact ⟨_, _, .writeTo hd hsecond hr⟩
      have hspecial : c ∉ special := by
        simp only [special, List.mem_cons, List.mem_append, not_or]
        exact ⟨hbackslash, hless, hgreater, hseparator, hquote⟩
      exact ⟨_, _, .literal hspecial (fun hd hnext => hfd ⟨hd, hnext⟩) hs⟩

/-- **The grammar of lines.**  Every line is a sequence of symbols with an ending, and the answer
for the line is the verdict on the words and operators of its symbols. -/
theorem split_eq_verdict (line : Bytes) :
    (∃ ts e, Lexed line ts e) ∧
      ∀ ts e, Lexed line ts e → split line = verdict (items ts) e :=
  ⟨exists_lexed line, fun _ _ h => split_of_lexed h⟩

/-! ### Descriptors and separators of a line -/

lemma verdict_eq_ok {is : List Item} {e : Ending} {l : Line} (h : verdict is e = .ok l) :
    firstFault [] is = none ∧ l = ⟨argumentsOf is, byDescriptor (redirectionsOf is)⟩ := by
  unfold verdict at h
  split at h
  · cases h
  · rename_i hfault
    split at h
    · cases h
    · cases e with
      | openQuote => cases h
      | danglingBackslash => cases h
      | complete =>
        simp only at h
        split at h
        · cases h
        · exact ⟨hfault, (Except.ok.inj h).symm⟩

/-- The redirections of a line are in the order of their descriptors. -/
lemma pairwise_fds_of_split {line : Bytes} {l : Line} (h : split line = .ok l) :
    l.redirections.Pairwise fun a b => a.fd < b.fd := by
  obtain ⟨ts, e, hlexed⟩ := exists_lexed line
  rw [split_of_lexed hlexed] at h
  obtain ⟨hfault, rfl⟩ := verdict_eq_ok h
  exact byDescriptor_pairwise_lt (nodup_of_firstFault hfault)

/-- No descriptor is redirected twice by a line. -/
lemma nodup_fds_of_split {line : Bytes} {l : Line} (h : split line = .ok l) :
    (l.redirections.map Redirection.fd).Nodup :=
  List.pairwise_map.2 ((pairwise_fds_of_split h).imp fun hlt => hlt.ne)

/-- The operators of a line open a target for reading exactly on the descriptor of the input. -/
lemma mode_of_lexed {s : Bytes} {ts : List Symbol} {e : Ending} (h : Lexed s ts e) {op : Operator}
    (hop : Symbol.operator op ∈ ts) : op.mode = .read ↔ op.fd = 0 := by
  induction h with
  | nil => simp at hop
  | dangling => simp at hop
  | unclosed hq htext => simp at hop
  | escaped hs ih => exact ih (by simpa using hop)
  | quoted hq htext hs ih => exact ih (by simpa using hop)
  | separator hc hs ih => exact ih (by simpa using hop)
  | literal hc hnext hs ih => exact ih (by simpa using hop)
  | input hs ih =>
    rcases List.mem_cons.1 hop with heq | hop
    · cases heq
      simp
    · exact ih hop
  | write hnext hs ih =>
    rcases List.mem_cons.1 hop with heq | hop
    · cases heq
      simp
    · exact ih hop
  | append hs ih =>
    rcases List.mem_cons.1 hop with heq | hop
    · cases heq
      simp
    · exact ih hop
  | writeTo hd hnext hs ih =>
    rcases List.mem_cons.1 hop with heq | hop
    · cases heq
      simp only [descriptors, List.mem_cons, List.not_mem_nil, or_false] at hd
      rcases hd with rfl | rfl | rfl | rfl | rfl | rfl | rfl | rfl | rfl <;> decide
    · exact ih hop
  | appendTo hd hs ih =>
    rcases List.mem_cons.1 hop with heq | hop
    · cases heq
      simp only [descriptors, List.mem_cons, List.not_mem_nil, or_false] at hd
      rcases hd with rfl | rfl | rfl | rfl | rfl | rfl | rfl | rfl | rfl <;> decide
    · exact ih hop

lemma operator_mem_of_items {ts : List Symbol} {op : Operator} (h : Item.operator op ∈ items ts) :
    Symbol.operator op ∈ ts := by
  induction ts with
  | nil => simp [items] at h
  | cons t ts ih =>
    cases t with
    | separator => exact List.mem_cons_of_mem _ (ih h)
    | operator op' =>
      rcases List.mem_cons.1 h with heq | h
      · cases heq
        exact List.mem_cons_self
      · exact List.mem_cons_of_mem _ (ih h)
    | part text =>
      refine List.mem_cons_of_mem _ (ih ?_)
      rw [items] at h
      split at h
      · rename_i hitems
        rw [hitems]
        simpa using h
      · simpa using h

lemma operator_mem_of_redirection {before : Option Item} {is : List Item} {r : Redirection}
    (h : r ∈ (withPrevious before is).filterMap redirectionOf) :
    Item.operator ⟨r.fd, r.mode⟩ ∈ before.toList ++ is := by
  induction is generalizing before with
  | nil => simp [withPrevious] at h
  | cons i is ih =>
    rw [withPrevious, List.filterMap_cons] at h
    have hrest : r ∈ (withPrevious (some i) is).filterMap redirectionOf →
        Item.operator ⟨r.fd, r.mode⟩ ∈ before.toList ++ i :: is := by
      intro h
      exact List.mem_append_right _ (ih h)
    split at h
    · exact hrest h
    · rename_i r' heq
      rcases List.mem_cons.1 h with rfl | h
      · -- the operator right before the word that completes the redirection
        unfold redirectionOf at heq
        split at heq
        · rename_i op text hprevious
          cases hprevious
          cases heq
          exact List.mem_append_left _ (by simp)
        · cases heq
      · exact hrest h

/-- A target is opened for reading exactly on the descriptor of the input. -/
lemma mode_of_split {line : Bytes} {l : Line} (h : split line = .ok l) {r : Redirection}
    (hr : r ∈ l.redirections) : r.mode = .read ↔ r.fd = 0 := by
  obtain ⟨ts, e, hlexed⟩ := exists_lexed line
  rw [split_of_lexed hlexed] at h
  obtain ⟨-, rfl⟩ := verdict_eq_ok h
  have hitem := operator_mem_of_redirection ((byDescriptor_perm _).mem_iff.1 hr)
  have hsymbol : Symbol.operator ⟨r.fd, r.mode⟩ ∈ ts :=
    operator_mem_of_items (by simpa using hitem)
  exact mode_of_lexed hlexed hsymbol

lemma faultOf_ne_empty (done : List Item) (i : Item) : faultOf done i ≠ some .empty := by
  unfold faultOf
  split
  · simp
  · split_ifs <;> simp
  · simp

lemma firstFault_ne_empty (done is : List Item) : firstFault done is ≠ some .empty := by
  induction is generalizing done with
  | nil => simp [firstFault]
  | cons i is ih =>
    intro h
    rcases Option.or_eq_some_iff.1 h with h | ⟨-, h⟩
    · exact faultOf_ne_empty done i h
    · exact ih _ h

lemma verdict_eq_empty {is : List Item} {e : Ending} (h : verdict is e = .error .empty) :
    e = .complete ∧ is = [] := by
  unfold verdict at h
  split at h
  · rename_i f hfault
    exact absurd (hfault.trans (congrArg some (Except.error.inj h))) (firstFault_ne_empty _ _)
  · split at h
    · cases h
    · cases e with
      | openQuote => cases h
      | danglingBackslash => cases h
      | complete =>
        simp only at h
        split at h
        · exact ⟨rfl, List.isEmpty_iff.1 ‹_›⟩
        · cases h

lemma items_part_ne_nil (text : Bytes) (ts : List Symbol) : items (.part text :: ts) ≠ [] := by
  unfold items
  split <;> simp

/-- A complete line without words and operators has nothing but separators. -/
lemma separators_of_items_eq_nil {line : Bytes} {ts : List Symbol}
    (h : Lexed line ts .complete) (hnil : items ts = []) : ∀ c ∈ line, c ∈ separators := by
  generalize he : Ending.complete = e at h
  induction h with
  | nil => simp
  | separator hc hs ih =>
    intro d hd
    rcases List.mem_cons.1 hd with rfl | hd
    · exact hc
    · exact ih hnil he d hd
  | dangling | unclosed => cases he
  | escaped | quoted | literal => exact absurd hnil (items_part_ne_nil _ _)
  | input | write | append | writeTo | appendTo => exact absurd hnil (List.cons_ne_nil _ _)

lemma lexed_of_separators {line : Bytes} (h : ∀ c ∈ line, c ∈ separators) :
    ∃ ts, Lexed line ts .complete ∧ items ts = [] := by
  induction line with
  | nil => exact ⟨[], .nil, rfl⟩
  | cons c s ih =>
    obtain ⟨ts, hs, hts⟩ := ih fun d hd => h d (List.mem_cons_of_mem c hd)
    exact ⟨.separator :: ts, .separator (h c List.mem_cons_self) hs, hts⟩

/-- A line is called empty if it has nothing but separators. -/
lemma split_eq_empty_iff (line : Bytes) :
    split line = .error .empty ↔ ∀ c ∈ line, c ∈ separators := by
  constructor
  · intro h
    obtain ⟨ts, e, hlexed⟩ := exists_lexed line
    rw [split_of_lexed hlexed] at h
    obtain ⟨rfl, hnil⟩ := verdict_eq_empty h
    exact separators_of_items_eq_nil hlexed hnil
  · intro h
    obtain ⟨ts, hlexed, hnil⟩ := lexed_of_separators h
    rw [split_of_lexed hlexed, hnil]
    rfl

end Line

end ConsoleShell
