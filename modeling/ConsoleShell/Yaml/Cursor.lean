/-
Reading YAML text character by character.

A cursor stands before a character and knows its line and column.  Line breaks are line
feed, carriage return (alone or before a line feed), next line, and the line and paragraph
separators.
-/
import ConsoleShell.Text.Utf8

namespace ConsoleShell

namespace Yaml

/-- A space or a tab. -/
def isBlank (c : Char) : Bool := c == ' ' || c == '\t'

/-- A line break. -/
def isBreak (c : Char) : Bool :=
  c == '\n' || c == '\r' || c == '\u0085' || c == '\u2028' || c == '\u2029'

/-- A character that may stand in a text. -/
def isAllowed (c : Char) : Bool :=
  c == '\t' || c == '\n' || c == '\r' || (' ' ≤ c && c ≤ '~') || c == '\u0085' ||
    ('\u00A0' ≤ c && c ≤ '\uD7FF') || ('\uE000' ≤ c && c ≤ '\uFFFD' && c != '\uFEFF') ||
    0x10000 ≤ c.toNat

/-- The characters of a text, without a byte order mark in front; none if the text is not
UTF-8 or has a character that may not stand in it. -/
def characters? (s : Bytes) : Option (List Char) :=
  if !Utf8.isValid s then none
  else
    let cs := match Utf8.chars s with
      | '\uFEFF' :: cs => cs
      | cs => cs
    if cs.all isAllowed then some cs else none

/-- A position in a text with the characters from there on. -/
structure Cursor where
  rest : List Char
  line : Nat := 0
  column : Nat := 0
  /-- How many characters come before. -/
  index : Nat := 0
  deriving DecidableEq, Repr

namespace Cursor

/-- The character `k` places on. -/
def at? (c : Cursor) (k : Nat) : Option Char := c.rest[k]?

/-- The character `k` places on is a given one. -/
def isAt (c : Cursor) (k : Nat) (x : Char) : Bool := c.at? k == some x

/-- The text ends here. -/
def atEnd (c : Cursor) : Bool := c.rest.isEmpty

/-- A blank is `k` places on. -/
def blankAt (c : Cursor) (k : Nat) : Bool := (c.at? k).any isBlank

/-- A line break is `k` places on. -/
def breakAt (c : Cursor) (k : Nat) : Bool := (c.at? k).any isBreak

/-- A line break or the end of the text is `k` places on. -/
def lineEndAt (c : Cursor) (k : Nat) : Bool := (c.at? k).all isBreak

/-- A blank, a line break or the end of the text is `k` places on. -/
def spaceAt (c : Cursor) (k : Nat) : Bool := (c.at? k).all fun x => isBlank x || isBreak x

/-- Moves on within a line. -/
def skip (c : Cursor) (n : Nat) : Cursor :=
  { c with rest := c.rest.drop n, column := c.column + n, index := c.index + n }

/-- Reads a line break, if one is here: what it stands for, and the cursor after it. -/
def readBreak (c : Cursor) : List Char × Cursor :=
  let next (n : Nat) : Cursor := ⟨c.rest.drop n, c.line + 1, 0, c.index + n⟩
  match c.rest with
  | '\r' :: '\n' :: _ => (['\n'], next 2)
  | x :: _ =>
    if x == '\u2028' || x == '\u2029' then ([x], next 1)
    else if isBreak x then (['\n'], next 1)
    else ([], c)
  | [] => ([], c)

/-- Moves on while a test holds, within a line. -/
def skipWhile (c : Cursor) (test : Char → Bool) : Cursor := c.skip (c.rest.takeWhile test).length

/-- A document marker, three times the same character at the beginning of a line, is here. -/
def markerAt (c : Cursor) (x : Char) : Bool :=
  c.column == 0 && c.isAt 0 x && c.isAt 1 x && c.isAt 2 x && c.spaceAt 3

/-- Any document marker is here. -/
def atMarker (c : Cursor) : Bool := c.markerAt '-' || c.markerAt '.'

end Cursor

end Yaml

end ConsoleShell
