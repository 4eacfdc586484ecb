/-
Scalars of YAML: plain, quoted and block text.

Line breaks inside plain and quoted text are folded: one break becomes a space, and of
several breaks the first is dropped.  Each loop is bounded by fuel, of which the length of
the text is enough.
-/
import ConsoleShell.Yaml.Cursor

namespace ConsoleShell

namespace Yaml

/-- White space inside a scalar: blanks, or line breaks with the blanks around them dropped. -/
structure Gap where
  blanks : List Char := []
  /-- The first line break, and those after it. -/
  first : List Char := []
  others : List Char := []
  /-- A line break has been seen. -/
  broken : Bool := false
  deriving DecidableEq, Repr

namespace Gap

/-- The text that the white space stands for. -/
def text (g : Gap) : List Char :=
  if !g.broken then g.blanks
  else if g.first.head? == some '\n' then if g.others.isEmpty then [' '] else g.others
  else g.first ++ g.others

/-- Reads white space.  With `least`, a tab before that column of a new line is a fault. -/
def read? (least : Option Nat) : Nat → Gap → Cursor → Option (Gap × Cursor)
  | 0, g, c => some (g, c)
  | fuel + 1, g, c =>
    match c.at? 0 with
    | none => some (g, c)
    | some x =>
      if isBlank x then
        if g.broken && x == '\t' && least.any (c.column < ·) then none
        else if g.broken then read? least fuel g (c.skip 1)
        else read? least fuel { g with blanks := g.blanks ++ [x] } (c.skip 1)
      else if isBreak x then
        let (b, c) := c.readBreak
        if g.broken then read? least fuel { g with others := g.others ++ b } c
        else read? least fuel { g with blanks := [], first := b, broken := true } c
      else some (g, c)

end Gap

/-! ### Plain text -/

/-- Plain text ends before this position. -/
def endsPlain (flow : Bool) (c : Cursor) : Bool :=
  c.spaceAt 0 || (c.isAt 0 ':' && c.spaceAt 1) ||
    (flow && (c.at? 0).any fun x => ",?[]\x7b\x7d".toList.contains x)

/-- The characters up to the end of plain text on a line. -/
def plainRun (flow : Bool) : Nat → Cursor → List Char × Cursor
  | 0, c => ([], c)
  | fuel + 1, c =>
    if endsPlain flow c then ([], c)
    else match c.at? 0 with
      | none => ([], c)
      | some x =>
        let (run, c) := plainRun flow fuel (c.skip 1)
        (x :: run, c)

/-- Plain text whose continuation lines are indented by at least `least` columns.  Answers the
text, whether it was followed by a line break, and the cursor after it. -/
def plain? (flow : Bool) (least : Nat) : Nat → Gap → Cursor → Option (List Char × Bool × Cursor)
  | 0, g, c => some ([], g.broken, c)
  | fuel + 1, g, c =>
    if c.atMarker || c.isAt 0 '#' then some ([], g.broken, c)
    else
      let (run, c) := plainRun flow c.rest.length c
      -- white space counts only if more text follows it
      let head := if run.isEmpty then [] else g.text ++ run
      let g := if run.isEmpty then g else {}
      if !(c.blankAt 0 || c.breakAt 0) then some (head, g.broken, c)
      else match Gap.read? (some least) c.rest.length g c with
        | none => none
        | some (g, c) =>
          if !flow && c.column < least then some (head, g.broken, c)
          else (plain? flow least fuel g c).map fun (text, broken, c) => (head ++ text, broken, c)

/-! ### Quoted text -/

/-- The character that a letter after a backslash stands for. -/
def escaped? (c : Char) : Option Char :=
  match c with
  | '0' => some '\x00'
  | 'a' => some '\x07'
  | 'b' => some '\x08'
  | 't' => some '\t'
  | '\t' => some '\t'
  | 'n' => some '\n'
  | 'v' => some '\x0b'
  | 'f' => some '\x0c'
  | 'r' => some '\r'
  | 'e' => some '\x1b'
  | ' ' => some ' '
  | '"' => some '"'
  | '\'' => some '\''
  | '\\' => some '\\'
  | 'N' => some '\u0085'
  | '_' => some '\u00A0'
  | 'L' => some '\u2028'
  | 'P' => some '\u2029'
  | _ => none

/-- The number of hexadecimal digits after a letter that announces a character by number. -/
def codeLength? (c : Char) : Option Nat :=
  match c with
  | 'x' => some 2
  | 'u' => some 4
  | 'U' => some 8
  | _ => none

/-- The value of hexadecimal digits. -/
def hexValue? (ds : List Char) : Option Nat :=
  ds.foldlM (fun n d =>
    if d.toNat < 128 then
      ((Ascii.digitValue? d.toNat.toUInt8).filter (· < 16)).map fun v => n * 16 + v
    else none) 0

/-- The character with a number; none for surrogates and numbers that are too large. -/
def charOf? (n : Nat) : Option Char :=
  if (0xD800 ≤ n && n ≤ 0xDFFF) || 0x10FFFF < n then none else some (Char.ofNat n)

/-- The character that an escape sequence stands for, and the cursor after it. -/
def escape? (c : Cursor) : Option (Char × Cursor) := do
  let letter ← c.at? 1
  match codeLength? letter with
  | some n =>
    let digits := (c.rest.drop 2).take n
    if digits.length < n then none
    else return (← charOf? (← hexValue? digits), c.skip (2 + n))
  | none => return (← escaped? letter, c.skip 2)

/-- Characters up to white space or the closing quote.  An escaped line break ends them, too,
and is dropped; the third component says so. -/
def quotedRun? (double : Bool) : Nat → Cursor → Option (List Char × Cursor × Bool)
  | 0, c => some ([], c, false)
  | fuel + 1, c =>
    if c.spaceAt 0 then some ([], c, false)
    else match c.at? 0 with
      | none => some ([], c, false)
      | some x =>
        let keep (y : Char) (c : Cursor) : Option (List Char × Cursor × Bool) :=
          (quotedRun? double fuel c).map fun (run, rest) => (y :: run, rest)
        if !double && x == '\'' then
          if c.isAt 1 '\'' then keep '\'' (c.skip 2) else some ([], c, false)
        else if double && x == '"' then some ([], c, false)
        else if double && x == '\\' then
          if c.breakAt 1 then some ([], (c.skip 1).readBreak.2, true)
          else match escape? c with
            | none => none
            | some (y, c) => keep y c
        else keep x (c.skip 1)

/-- Quoted text after its opening quote, and the cursor after its closing quote. -/
def quoted? (double : Bool) : Nat → Cursor → Option (List Char × Cursor)
  | 0, _ => none
  | fuel + 1, c =>
    if c.atMarker || c.atEnd then none
    else match quotedRun? double c.rest.length c with
      | none => none
      | some (run, c, broken) =>
        if !broken && c.isAt 0 (if double then '"' else '\'') then some (run, c.skip 1)
        else match Gap.read? none c.rest.length { broken } c with
          | none => none
          | some (g, c) => (quoted? double fuel c).map fun (text, c) => (run ++ g.text ++ text, c)

/-! ### Block text -/

/-- What happens to the line breaks at the end of block text. -/
inductive Chomping where
  /-- One break is kept. -/
  | clip
  /-- None is kept. -/
  | strip
  /-- All are kept. -/
  | keep
  deriving DecidableEq, Repr

/-- The head of block text: chomping, and the indentation if it is given. -/
structure BlockHead where
  chomping : Chomping := .clip
  indent : Option Nat := none
  deriving DecidableEq, Repr

/-- Reads a sign for the chomping. -/
def chomping? (c : Cursor) : Option Chomping :=
  if c.isAt 0 '+' then some .keep else if c.isAt 0 '-' then some .strip else none

/-- Reads a digit for the indentation. -/
def indentation? (c : Cursor) : Option Nat :=
  (c.at? 0).bind fun x => if x.isDigit then some (x.toNat - 48) else none

/-- Reads the head of block text after its indicator, up to the end of the line. -/
def blockHead? (c : Cursor) : Option (BlockHead × Cursor) :=
  let (head, c) : BlockHead × Cursor := match chomping? c, indentation? c with
    | some chomping, _ =>
      let c := c.skip 1
      match indentation? c with
      | some n => (⟨chomping, some n⟩, c.skip 1)
      | none => (⟨chomping, none⟩, c)
    | none, some n =>
      let c := c.skip 1
      match chomping? c with
      | some chomping => (⟨chomping, some n⟩, c.skip 1)
      | none => ({ indent := some n }, c)
    | none, none => ({}, c)
  let c := c.skipWhile isBlank
  let c := if c.isAt 0 '#' then c.skipWhile fun x => !isBreak x else c
  if head.indent == some 0 || !c.lineEndAt 0 then none else some (head, c.readBreak.2)

/-- Reads empty lines and the indentation of the line after them.  Without `indent` the
indentation may be any; the largest one that was seen is answered, too. -/
def emptyLines? (indent : Option Nat) :
    Nat → Nat → List Char → Cursor → Option (List Char × Nat × Cursor)
  | 0, most, breaks, c => some (breaks, most, c)
  | fuel + 1, most, breaks, c =>
    let spaces := (c.rest.takeWhile (· == ' ')).length
    let c := c.skip (match indent with
      | none => spaces
      | some n => min spaces (n - c.column))
    let most := max most c.column
    if indent.all (c.column < ·) && c.isAt 0 '\t' then none
    else if c.breakAt 0 then
      let (b, c) := c.readBreak
      emptyLines? indent fuel most (breaks ++ b) c
    else some (breaks, most, c)

/-- The state between two lines of block text. -/
structure BlockLines where
  text : List Char := []
  /-- The break after the latest line. -/
  ended : List Char := []
  /-- The breaks of the empty lines after it. -/
  breaks : List Char := []
  /-- The latest line began with a blank. -/
  blank : Bool := false
  deriving DecidableEq, Repr

/-- Reads the lines of block text. -/
def blockLines? (folded : Bool) (indent : Nat) :
    Nat → BlockLines → Cursor → Option (BlockLines × Cursor)
  | 0, b, c => some (b, c)
  | fuel + 1, b, c =>
    if c.column != indent || c.atEnd then some (b, c)
    else
      let blank := c.blankAt 0
      let joined := folded && !b.blank && !blank && b.ended.head? == some '\n'
      let link := if joined then if b.breaks.isEmpty then [' '] else [] else b.ended
      let line := c.rest.takeWhile fun x => !isBreak x
      let (ended, c) := (c.skip line.length).readBreak
      match emptyLines? (some indent) (c.rest.length + 1) 0 [] c with
      | none => none
      | some (breaks, _, c) =>
        blockLines? folded indent fuel ⟨b.text ++ link ++ b.breaks ++ line, ended, breaks, blank⟩ c

/-- Block text after its indicator, inside a block whose indentation is `parent`. -/
def block? (folded : Bool) (parent : Int) (c : Cursor) : Option (List Char × Cursor) := do
  let (head, c) ← blockHead? c
  let given := head.indent.map fun n => parent.toNat + n
  let (breaks, most, c) ← emptyLines? given (c.rest.length + 1) 0 [] c
  let indent := given.getD (max most (max (parent + 1).toNat 1))
  let (b, c) ← blockLines? folded indent (c.rest.length + 1) { breaks } c
  let ended := if head.chomping = .strip then [] else b.ended
  let breaks := if head.chomping = .keep then b.breaks else []
  return (b.text ++ ended ++ breaks, c)

end Yaml

end ConsoleShell
