/-
Integer numerals of 64 bits.

A numeral is a run of digits; in a literal the base is chosen by its first characters
(`0x`, `0b`, `0o` or a leading `0`), and underscores may separate digits.  Digits are
taken from left to right, and the numeral is out of range as soon as the digits read so
far are, whatever follows them.
-/
import ConsoleShell.Text.Bytes

namespace ConsoleShell

namespace Numeral

/-- Why a text is not a number. -/
inductive Fault where
  /-- The text is not a numeral. -/
  | malformed
  /-- The text is a numeral whose value does not fit. -/
  | outOfRange
  deriving DecidableEq, Repr

/-- What the character before the current one was, for the placing of underscores. -/
inductive Neighbour where
  | start
  | digit
  | underscore
  | other
  deriving DecidableEq, Repr

/-- An underscore stands between two digits, the base's letters counting as a digit. -/
def underscoresFit (hex : Bool) : Neighbour → Bytes → Bool
  | saw, [] => saw != .underscore
  | saw, c :: s =>
    let isDigit := Ascii.isDigit c || (hex && 97 ≤ Ascii.toLower c && Ascii.toLower c ≤ 102)
    if isDigit then underscoresFit hex .digit s
    else if c == Ascii.underscore then
      saw == .digit && underscoresFit hex .underscore s
    else saw != .underscore && underscoresFit hex .other s

/-- The underscores of a literal, which may have a sign and a base in front, are well placed. -/
def underscoresOk (s : Bytes) : Bool :=
  let s := match s with
    | c :: r => if c == Ascii.plus || c == Ascii.minus then r else s
    | [] => []
  match s with
  | 48 :: b :: r =>
    let l := Ascii.toLower b
    if l == 98 || l == 111 || l == 120 then underscoresFit (l == 120) .digit r
    else underscoresFit false .start s
  | _ => underscoresFit false .start s

/-- The largest value of 64 bits. -/
abbrev maxUnsigned : Nat := 2 ^ 64 - 1

/-- Continues a numeral whose digits so far have the value `n`. -/
def digits (base : Nat) (underscores : Bool) : Nat → Bytes → Except Fault Nat
  | n, [] => .ok n
  | n, c :: s =>
    if underscores && c == Ascii.underscore then digits base underscores n s
    else match Ascii.digitValue? c with
      | none => .error .malformed
      | some d =>
        if base ≤ d then .error .malformed
        else if maxUnsigned < n * base + d then .error .outOfRange
        else digits base underscores (n * base + d) s

/-- The base of an unsigned literal and the digits after the letters that choose it. -/
def base : Bytes → Nat × Bytes
  | 48 :: b :: d :: r =>
    let l := Ascii.toLower b
    if l == 98 then (2, d :: r)
    else if l == 111 then (8, d :: r)
    else if l == 120 then (16, d :: r)
    else (8, b :: d :: r)
  | 48 :: r => (8, r)
  | s => (10, s)

/-- An unsigned literal of 64 bits. -/
def parseUnsigned (s : Bytes) : Except Fault Nat :=
  if s.isEmpty then .error .malformed
  else
    let (b, r) := base s
    match digits b true 0 r with
    | .error f => .error f
    | .ok n =>
      if s.contains Ascii.underscore && !underscoresOk s then .error .malformed else .ok n

/-- The sign of a numeral (`true` for minus) and what follows it. -/
def sign : Bytes → Bool × Bytes
  | c :: r =>
    if c == Ascii.plus then (false, r) else if c == Ascii.minus then (true, r) else (false, c :: r)
  | [] => (false, [])

/-- Puts a sign on a magnitude; the result is a signed number of 64 bits. -/
def signed (negative : Bool) : Except Fault Nat → Except Fault Int
  | .error .malformed => .error .malformed
  | .error .outOfRange => .error .outOfRange
  | .ok n =>
    if negative then if n ≤ 2 ^ 63 then .ok (-(n : Int)) else .error .outOfRange
    else if n < 2 ^ 63 then .ok n else .error .outOfRange

/-- A signed literal of 64 bits in any base. -/
def parseSigned (s : Bytes) : Except Fault Int :=
  let (negative, r) := sign s
  signed negative (parseUnsigned r)

/-- A signed decimal number of 64 bits. -/
def parseDecimal (s : Bytes) : Except Fault Int :=
  let (negative, r) := sign s
  signed negative (if r.isEmpty then .error .malformed else digits 10 false 0 r)

/-- The 64 bits of an unsigned value read as a signed number. -/
def wrap (n : Nat) : Int := (n : Int).bmod (2 ^ 64)

end Numeral

end ConsoleShell
