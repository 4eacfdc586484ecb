/-
Editing lines on a terminal.

The keys that change the line are text, enter, interrupt (the line is given up),
end-of-transmission (the end of the input on an empty line), the key that recalls the
previous line, and tab, which completes the word before the cursor.  The cursor stays at
the end of the line.
-/
import ConsoleShell.History
import ConsoleShell.LineEditor.Recall
import ConsoleShell.Text.Words

namespace ConsoleShell

/-- The state of an editor: the keys that are still to come and the lines to recall. -/
structure TerminalEditor where
  keys : List Char := []
  memory : Recall := {}
  deriving DecidableEq, Repr

namespace TerminalEditor

/-- What a read of a line yields. -/
inductive Outcome where
  | line (text : List Char)
  | interrupted
  | ended
  deriving DecidableEq, Repr

/-- The longest text that all candidates begin with. -/
def commonStart : List (List Char) → List Char
  | [] => []
  | [c] => c
  | c :: cs =>
    let rest := commonStart cs
    ((c.zip rest).takeWhile fun (a, b) => a == b).map (·.1)

variable {σ : Type}

/-- Reads keys until the line is complete.  `complete` gives the continuations of a line, of
which what they all share is added; it may change a state `s`.  `line` is what has been typed
so far. -/
def read (complete : List Char → σ → List (List Char) × σ) :
    List Char → Recall → List Char → σ → Outcome × TerminalEditor × σ
  | line, memory, [], s =>
    if line.isEmpty then (.ended, ⟨[], memory⟩, s) else (.line line, ⟨[], memory⟩, s)
  | line, memory, k :: keys, s =>
    if k == '\r' || k == '\n' then (.line line, ⟨keys, memory⟩, s)
    else if k == '\x03' then (.interrupted, ⟨keys, memory.revert⟩, s)
    else if k == '\x04' then
      if line.isEmpty then (.ended, ⟨keys, memory.revert⟩, s)
      else read complete line (memory.update line false) keys s
    else if k == '\x10' then
      match memory.previous? with
      | some (earlier, memory) => read complete earlier memory keys s
      | none => read complete line (memory.update line false) keys s
    else if k == '\t' then
      let (candidates, s) := complete line s
      let line := line ++ commonStart candidates
      read complete line (memory.update line false) keys s
    else if k.toNat < 32 || k.toNat == 127 then
      read complete line (memory.update line false) keys s
    else
      let line := line ++ [k]
      read complete line (memory.update line false) keys s

/-- Reads the next line. -/
def next (e : TerminalEditor) (complete : List Char → σ → List (List Char) × σ) (s : σ) :
    Outcome × TerminalEditor × σ :=
  read complete [] e.memory e.keys s

/-- A line with nothing but white space is not kept. -/
def isBlank (line : List Char) : Bool := line.all Unicode.isSpace

/-- Keeps a line that has been read, unless it is blank. -/
def keep (e : TerminalEditor) (line : List Char) : TerminalEditor :=
  if isBlank line then e else { e with memory := e.memory.keep line }

/-- An editor for the given input, with lines to recall. -/
def start (input : Bytes) (lines : List Bytes) : TerminalEditor :=
  { keys := Utf8.chars input,
    memory := lines.foldl (fun r l => r.keep (Utf8.chars l)) {} }

/-- Reads the next line and adds it to a history; none at the end of the input.  A line that
is given up is read as an empty one, and blank lines are not added. -/
def readLine (e : TerminalEditor) (complete : List Char → σ → List (List Char) × σ)
    (history : Option History) (s : σ) : Option Bytes × TerminalEditor × Option History × σ :=
  match e.next complete s with
  | (.ended, e, s) => (none, e, history, s)
  | (.interrupted, e, s) => (some [], e, history, s)
  | (.line line, e, s) =>
    let text := Utf8.encode line
    if isBlank line then (some text, e, history, s)
    else (some text, e.keep line, history.map fun h => h.add text, s)

/-- Reads lines without completion until the input ends, but not more than a number: the
lines, none at the end, and the history with them. -/
def readLines : Nat → TerminalEditor → Option History → List (Option Bytes) × Option History
  | 0, _, h => ([], h)
  | n + 1, e, h =>
    match e.readLine (fun _ s => ([], s)) h () with
    | (none, _, h, _) => ([none], h)
    | (some line, e, h, _) =>
      let (lines, h) := readLines n e h
      (some line :: lines, h)

end TerminalEditor

end ConsoleShell
