/-
Command lines.

A line is split into words and redirections.  Words are separated by spaces, tabs,
commas, parentheses and carriage returns.  Quotes of either kind group bytes into one
word, and outside quotes a backslash makes the next byte literal.  Outside quotes `<`
redirects input, `>` and `>>` redirect output, and a digit from 1 to 9 right before `>`
names the descriptor, also in the middle of a word.  The word after an operator is the
name of its target and is not a word of the line.
-/
import ConsoleShell.Text.Bytes

namespace ConsoleShell

/-- How the target of a redirection is opened. -/
inductive Mode where
  /-- Opened for reading. -/
  | read
  /-- Created, or emptied if it exists. -/
  | write
  /-- Created, or written at its end if it exists. -/
  | append
  deriving DecidableEq, Repr

/-- The operator of a mode as it is written on a line. -/
def Mode.symbol : Mode → Bytes
  | .read => "<"
  | .write => ">"
  | .append => ">>"

/-- A redirection operator: the descriptor it is about and how its target is opened. -/
structure Operator where
  fd : Nat
  mode : Mode
  deriving DecidableEq, Repr

/-- A redirection of one descriptor to a named target. -/
structure Redirection where
  fd : Nat
  mode : Mode
  name : Bytes
  deriving DecidableEq, Repr

/-- A line split into words and redirections, the latter by increasing descriptor. -/
structure Line where
  words : List Bytes
  redirections : List Redirection
  deriving DecidableEq, Repr

namespace Line

/-- Why a line cannot be split. -/
inductive Fault where
  | unbalancedQuote
  | trailingBackslash
  /-- An operator without a target. -/
  | illegalRedirection
  /-- Two redirections of one descriptor. -/
  | duplicateRedirection
  /-- Nothing but separators. -/
  | empty
  deriving DecidableEq, Repr

/-- The diagnostic for a line that cannot be split. -/
def Fault.message : Fault → Bytes
  | .unbalancedQuote => "Unbalanced quote."
  | .trailingBackslash => "Trailing backslash."
  | .illegalRedirection => "Illegal redirection."
  | .duplicateRedirection => "Duplicate redirection."
  | .empty => "empty line"

/-- The byte separates words when it stands outside quotes. -/
def isSeparator (c : UInt8) : Bool :=
  c == Ascii.space || c == Ascii.tab || c == Ascii.openParen || c == Ascii.closeParen ||
    c == Ascii.comma || c == Ascii.carriageReturn

/-- The byte opens and closes a quoted stretch. -/
def isQuote (c : UInt8) : Bool := c == Ascii.doubleQuote || c == Ascii.singleQuote

/-- The digit names a descriptor for output. -/
def isDescriptor (c : UInt8) : Bool := 49 ≤ c && c ≤ 57

/-- The output operator whose first `>` has just been read, and what follows it. -/
def outputOperator (fd : Nat) : Bytes → Operator × Bytes
  | 62 :: s => (⟨fd, .append⟩, s)
  | s => (⟨fd, .write⟩, s)

/-- The operator that begins with byte `c` before `s`, and what follows it. -/
def operator? (c : UInt8) (s : Bytes) : Option (Operator × Bytes) :=
  if c == Ascii.less then some (⟨0, .read⟩, s)
  else if c == Ascii.greater then some (outputOperator 1 s)
  else if isDescriptor c then
    match s with
    | 62 :: r => some (outputOperator (c.toNat - 48) r)
    | _ => none
  else none

/-- The word that is being read. -/
structure Word where
  /-- The operator whose target the word names, none for a word of the line. -/
  target : Option Operator
  text : Bytes
  deriving DecidableEq, Repr

/-- The state of the scanner between two bytes. -/
structure Scan where
  words : List Bytes := []
  redirections : List Redirection := []
  word : Option Word := none
  /-- The quote that is open. -/
  quote : Option UInt8 := none
  /-- The byte before was a backslash outside quotes. -/
  escaped : Bool := false
  /-- An operator whose target has not begun. -/
  pending : Option Operator := none
  deriving DecidableEq, Repr

/-- Adds a redirection in the order of descriptors. -/
def insertRedirection (r : Redirection) : List Redirection → List Redirection
  | [] => [r]
  | x :: xs => if r.fd < x.fd then r :: x :: xs else x :: insertRedirection r xs

namespace Scan

/-- Ends the word that is being read, if there is one. -/
def endWord (st : Scan) : Scan :=
  match st.word with
  | none => st
  | some w =>
    match w.target with
    | none => { st with words := st.words ++ [w.text], word := none }
    | some op =>
      let r : Redirection := ⟨op.fd, op.mode, w.text⟩
      { st with redirections := insertRedirection r st.redirections, word := none }

/-- Adds bytes to the word that is being read, or begins a word with them. -/
def extend (st : Scan) (text : Bytes) : Except Fault Scan :=
  match st.word with
  | some w => .ok { st with word := some { w with text := w.text ++ text } }
  | none =>
    match st.pending with
    | none => .ok { st with word := some ⟨none, text⟩ }
    | some op =>
      if st.redirections.any (·.fd == op.fd) then .error .duplicateRedirection
      else .ok { st with word := some ⟨some op, text⟩, pending := none }

/-- Takes an operator, which ends the word before it. -/
def operator (st : Scan) (op : Operator) : Except Fault Scan :=
  match st.pending with
  | some _ => .error .illegalRedirection
  | none => .ok { st.endWord with pending := some op }

/-- Takes one byte that is not part of an operator. -/
def byte (st : Scan) (c : UInt8) : Except Fault Scan :=
  match st.quote with
  | some q => if c == q then .ok { st with quote := none } else st.extend [c]
  | none =>
    if st.escaped then { st with escaped := false }.extend [c]
    else if c == Ascii.backslash then .ok { st with escaped := true }
    else if isSeparator c then .ok st.endWord
    else if isQuote c then { st with quote := some c }.extend []
    else st.extend [c]

/-- The scanner reads bytes for what they mean, not as quoted or escaped text. -/
def active (st : Scan) : Bool := st.quote.isNone && !st.escaped

/-- The line that has been read when the input ends. -/
def finish (st : Scan) : Except Fault Line :=
  if st.pending.isSome then .error .illegalRedirection
  else if st.quote.isSome then .error .unbalancedQuote
  else if st.escaped then .error .trailingBackslash
  else
    let st := st.endWord
    if st.words.isEmpty && st.redirections.isEmpty then .error .empty
    else .ok ⟨st.words, st.redirections⟩

end Scan

theorem outputOperator_length (fd : Nat) (s : Bytes) :
    (outputOperator fd s).2.length ≤ s.length := by
  unfold outputOperator
  split <;> simp

theorem operator?_length {c : UInt8} {s r : Bytes} {op : Operator}
    (h : operator? c s = some (op, r)) : r.length ≤ s.length := by
  unfold operator? at h
  split at h
  · simp only [Option.some.injEq, Prod.mk.injEq] at h
    simp [h.2]
  · split at h
    · have := outputOperator_length 1 s
      simp_all
    · split at h
      · split at h
        · rename_i t
          have := outputOperator_length (c.toNat - 48) t
          simp only [Option.some.injEq] at h
          rw [h] at this
          simp only [List.length_cons]
          exact Nat.le_succ_of_le this
        · simp at h
      · simp at h

/-- Runs the scanner over the rest of a line. -/
def scan (st : Scan) : Bytes → Except Fault Scan
  | [] => .ok st
  | c :: s =>
    if st.active then
      match _h : operator? c s with
      | some (op, r) =>
        match st.operator op with
        | .error e => .error e
        | .ok st => scan st r
      | none =>
        match st.byte c with
        | .error e => .error e
        | .ok st => scan st s
    else
      match st.byte c with
      | .error e => .error e
      | .ok st => scan st s
termination_by s => s.length
decreasing_by
  · have := operator?_length _h
    simp only [List.length_cons]
    omega
  · simp
  · simp

/-- The words and redirections of a line. -/
def split (line : Bytes) : Except Fault Line :=
  match scan {} line with
  | .error e => .error e
  | .ok st => st.finish

end Line

end ConsoleShell
