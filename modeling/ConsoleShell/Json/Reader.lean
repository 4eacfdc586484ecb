/-
Reading JSON.

The reader takes one value from the front of a byte string.  Stray bytes inside strings
become the replacement character, and so do escaped surrogates without a partner.  A value
that is nested too deeply is not read.
-/
import ConsoleShell.Json.Value

namespace ConsoleShell

namespace Json

/-- Blanks between tokens. -/
def isBlank (c : UInt8) : Bool := c == 32 || c == 9 || c == 10 || c == 13

/-- Without blanks in front. -/
def skipBlanks (s : Bytes) : Bytes := s.dropWhile isBlank

/-- The value of four hexadecimal digits. -/
def hex4? (a b c d : UInt8) : Option Nat := do
  let digit (x : UInt8) : Option Nat := (Ascii.digitValue? x).filter (· < 16)
  pure ((← digit a) * 4096 + (← digit b) * 256 + (← digit c) * 16 + (← digit d))

/-- The character that a letter after a backslash stands for. -/
def escapeLetter? (c : UInt8) : Option UInt8 :=
  match c with
  | 34 => some 34
  | 92 => some 92
  | 47 => some 47
  | 98 => some 8
  | 102 => some 12
  | 110 => some 10
  | 114 => some 13
  | 116 => some 9
  | _ => none

/-- The character for a UTF-16 unit followed by `next`, and whether `next` was used. -/
def unitChar (unit : Nat) (next : Option Nat) : Char × Bool :=
  if unit < 0xD800 || 0xDFFF < unit then (Char.ofNat unit, false)
  else match next with
    | some low =>
      if unit < 0xDC00 && 0xDC00 ≤ low && low ≤ 0xDFFF then
        (Char.ofNat (0x10000 + (unit - 0xD800) * 1024 + (low - 0xDC00)), true)
      else (Utf8.replacement, false)
    | none => (Utf8.replacement, false)

/-- The bytes of a string after its opening quote, with escapes undone, and what follows. -/
def stringTail : Bytes → Option (Bytes × Bytes)
  | [] => none
  | 34 :: s => some ([], s)
  | 92 :: 117 :: a :: b :: c :: d :: 92 :: 117 :: e :: f :: g :: h :: s =>
    match hex4? a b c d with
    | none => none
    | some unit =>
      let (ch, used) := unitChar unit (hex4? e f g h)
      if used then (stringTail s).map fun (t, r) => (Utf8.encodeChar ch ++ t, r)
      else (stringTail (92 :: 117 :: e :: f :: g :: h :: s)).map fun (t, r) =>
        (Utf8.encodeChar ch ++ t, r)
  | 92 :: 117 :: a :: b :: c :: d :: s =>
    match hex4? a b c d with
    | none => none
    | some unit => (stringTail s).map fun (t, r) => (Utf8.encodeChar (unitChar unit none).1 ++ t, r)
  | 92 :: c :: s =>
    match escapeLetter? c with
    | none => none
    | some x => (stringTail s).map fun (t, r) => (x :: t, r)
  | c :: s => if c < 32 || c == 92 then none else (stringTail s).map fun (t, r) => (c :: t, r)

/-- The digits at the front of a text. -/
def digits (s : Bytes) : Bytes × Bytes := (s.takeWhile Ascii.isDigit, s.dropWhile Ascii.isDigit)

/-- The sign of a number, if it has one. -/
def sign (s : Bytes) : Bytes × Bytes :=
  match s with
  | 45 :: r => ([Ascii.minus], r)
  | _ => ([], s)

/-- The digits of a number in front of its point; a zero stands alone. -/
def whole? (s : Bytes) : Option (Bytes × Bytes) :=
  match s with
  | 48 :: r => some ([48], r)
  | _ =>
    let (ds, r) := digits s
    if ds.isEmpty then none else some (ds, r)

/-- The fraction of a number, if it has one. -/
def fraction? (s : Bytes) : Option (Bytes × Bytes) :=
  match s with
  | 46 :: r =>
    let (ds, rest) := digits r
    if ds.isEmpty then none else some (46 :: ds, rest)
  | _ => some ([], s)

/-- The sign of an exponent, if it has one. -/
def exponentSign (s : Bytes) : Bytes × Bytes :=
  match s with
  | c :: r => if c == Ascii.plus || c == Ascii.minus then ([c], r) else ([], s)
  | [] => ([], [])

/-- The exponent of a number, if it has one. -/
def exponent? (s : Bytes) : Option (Bytes × Bytes) :=
  match s with
  | c :: r =>
    if c == 101 || c == 69 then
      let (sign, r) := exponentSign r
      let (ds, rest) := digits r
      if ds.isEmpty then none else some (c :: sign ++ ds, rest)
    else some ([], s)
  | [] => some ([], [])

/-- The number at the front of a text. -/
def number? (s : Bytes) : Option (Bytes × Bytes) := do
  let (sign, r) := sign s
  let (whole, r) ← whole? r
  let (fraction, r) ← fraction? r
  let (exponent, r) ← exponent? r
  pure (sign ++ whole ++ fraction ++ exponent, r)

/-- A string with its quotes at the front of a text, stray bytes replaced. -/
def string? (s : Bytes) : Option (Bytes × Bytes) :=
  match s with
  | 34 :: r => (stringTail r).map fun (t, rest) => (Utf8.sanitize t, rest)
  | _ => none

/-- A word at the front of a text. -/
def word? (w : Bytes) (value : Json) (s : Bytes) : Option (Json × Bytes) :=
  if s.startsWith w then some (value, s.drop w.length) else none

mutual

/-- The value at the front of a text without leading blanks. -/
def value? : Nat → Bytes → Option (Json × Bytes)
  | 0, _ => none
  | fuel + 1, s =>
    match s with
    | [] => none
    | c :: r =>
      if c == Ascii.openBrace then
        match skipBlanks r with
        | 125 :: rest => some (.object [], rest)
        | t => (fields? fuel t).map fun (fs, rest) => (.object fs, rest)
      else if c == Ascii.openBracket then
        match skipBlanks r with
        | 93 :: rest => some (.array [], rest)
        | t => (items? fuel t).map fun (xs, rest) => (.array xs, rest)
      else if c == Ascii.doubleQuote then (string? s).map fun (t, rest) => (.string t, rest)
      else if c == 116 then word? "true" (.bool true) s
      else if c == 102 then word? "false" (.bool false) s
      else if c == 110 then word? "null" .null s
      else (number? s).map fun (t, rest) => (.number t, rest)

/-- The items of an array after its bracket. -/
def items? : Nat → Bytes → Option (List Json × Bytes)
  | 0, _ => none
  | fuel + 1, s =>
    match value? fuel s with
    | none => none
    | some (x, r) =>
      match skipBlanks r with
      | 44 :: t => (items? fuel (skipBlanks t)).map fun (xs, rest) => (x :: xs, rest)
      | 93 :: rest => some ([x], rest)
      | _ => none

/-- The fields of an object after its brace. -/
def fields? : Nat → Bytes → Option (List (Bytes × Json) × Bytes)
  | 0, _ => none
  | fuel + 1, s =>
    match string? s with
    | none => none
    | some (k, r) =>
      match skipBlanks r with
      | 58 :: t =>
        match value? fuel (skipBlanks t) with
        | none => none
        | some (v, r) =>
          match skipBlanks r with
          | 44 :: t => (fields? fuel (skipBlanks t)).map fun (fs, rest) => ((k, v) :: fs, rest)
          | 125 :: rest => some ([(k, v)], rest)
          | _ => none
      | _ => none

end

mutual

/-- How many brackets and braces there are around the innermost part of a value. -/
def depth : Json → Nat
  | .array xs => itemsDepth xs + 1
  | .object fs => fieldsDepth fs + 1
  | _ => 0

/-- The depth of the deepest item. -/
def itemsDepth : List Json → Nat
  | [] => 0
  | x :: xs => max x.depth (itemsDepth xs)

/-- The depth of the deepest field. -/
def fieldsDepth : List (Bytes × Json) → Nat
  | [] => 0
  | (_, v) :: fs => max v.depth (fieldsDepth fs)

end

/-- The greatest depth of a value that is read. -/
def maxDepth : Nat := 10000

/-- The value at the front of a text, after blanks, and what follows it. -/
def next? (s : Bytes) : Option (Json × Bytes) :=
  (value? (2 * s.length + 2) (skipBlanks s)).filter fun (v, _) => v.depth ≤ maxDepth

/-- The value that makes up a whole text, blanks around it apart. -/
def parse? (s : Bytes) : Option Json :=
  match next? s with
  | some (v, r) => if (skipBlanks r).isEmpty then some v else none
  | none => none

/-- A letter without its case, where a few letters outside ASCII count as ASCII ones. -/
def foldChar (c : Char) : Char :=
  if c.isLower then Char.ofNat (c.toNat - 32)
  else if c == '\u017F' then 'S'
  else if c == '\u212A' then 'K'
  else c

/-- Two keys are the same up to case. -/
def sameKey (a b : Bytes) : Bool := (Utf8.chars a).map foldChar == (Utf8.chars b).map foldChar

end Json

end ConsoleShell
