/-
JSON values and their text.

Strings are byte strings.  A writer shows them as text: quotes, backslashes and control
characters are escaped, a stray byte becomes the replacement character, and the line
separators U+2028 and U+2029 are always escaped.  Styles differ in whether the
characters `<`, `>` and `&` are escaped and whether backspace and form feed have letters.
-/
import ConsoleShell.Text.Quoted

namespace ConsoleShell

/-- A JSON value.  A number is kept as it is written. -/
inductive Json where
  | null
  | bool (value : Bool)
  | number (text : Bytes)
  | string (text : Bytes)
  | array (items : List Json)
  | object (fields : List (Bytes × Json))
  deriving Repr

namespace Json

/-- What a writer escapes beyond what it must. -/
structure Style where
  /-- The characters `<`, `>` and `&` are escaped. -/
  markup : Bool := false
  /-- Backspace and form feed are written with their letters. -/
  letters : Bool := true
  deriving DecidableEq, Repr

/-- `\uHHHH`. -/
def unicodeEscape (n : Nat) : Bytes := Ascii.backslash :: 117 :: Quoted.hex 4 n

/-- How one element of a text stands in a string.  A stray byte becomes the replacement character
itself, not an escape of it. -/
def escapePiece (style : Style) : Utf8.Piece → Bytes
  | .stray _ => Utf8.encodeChar Utf8.replacement
  | .char c =>
    let n := c.toNat
    if c == '"' || c == '\\' then Ascii.backslash :: Utf8.encodeChar c
    else if n == 10 then [Ascii.backslash, 110]
    else if n == 13 then [Ascii.backslash, 114]
    else if n == 9 then [Ascii.backslash, 116]
    else if n == 8 && style.letters then [Ascii.backslash, 98]
    else if n == 12 && style.letters then [Ascii.backslash, 102]
    else if n < 0x20 || n == 0x2028 || n == 0x2029 then unicodeEscape n
    else if style.markup && (c == '<' || c == '>' || c == '&') then unicodeEscape n
    else Utf8.encodeChar c

/-- A string with its quotes. -/
def quote (style : Style) (s : Bytes) : Bytes :=
  Ascii.doubleQuote :: (Utf8.decode s).flatMap (escapePiece style) ++ [Ascii.doubleQuote]

mutual

/-- The text of a value, without blanks. -/
def render (style : Style) : Json → Bytes
  | .null => "null"
  | .bool b => if b then "true" else "false"
  | .number t => t
  | .string s => quote style s
  | .array xs => ("[" : Bytes) ++ renderItems style xs ++ "]"
  | .object fs => Ascii.openBrace :: renderFields style fs ++ [Ascii.closeBrace]

/-- The items of an array with commas between them. -/
def renderItems (style : Style) : List Json → Bytes
  | [] => []
  | [x] => render style x
  | x :: y :: xs => render style x ++ "," ++ renderItems style (y :: xs)

/-- The fields of an object with commas between them. -/
def renderFields (style : Style) : List (Bytes × Json) → Bytes
  | [] => []
  | [(k, v)] => quote style k ++ ":" ++ render style v
  | (k, v) :: f :: fs => quote style k ++ ":" ++ render style v ++ "," ++ renderFields style (f :: fs)

end

/-- A natural number. -/
def ofNat (n : Nat) : Json := .number (Bytes.ofNat n)

/-- An integer. -/
def ofInt (n : Int) : Json := .number (Bytes.ofInt n)

/-- Strings. -/
def ofStrings (xs : List Bytes) : Json := .array (xs.map .string)

/-- Strings, null if there are none. -/
def ofStringsOrNull (xs : List Bytes) : Json := if xs.isEmpty then .null else ofStrings xs

end Json

end ConsoleShell
