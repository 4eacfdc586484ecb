/-
Reading floating-point numbers.

The text is a decimal number with an optional fraction and an `e` exponent, a
hexadecimal one with a `p` exponent that is then required, or one of the names
`inf`, `infinity` and `nan` in any case.  The result is the nearest double; a decimal or
hexadecimal number beyond the largest double is out of range.
-/
import ConsoleShell.Number.Double
import ConsoleShell.Number.Numeral

namespace ConsoleShell

namespace Double

/-- The digits of a number while they are read. -/
structure Mantissa where
  /-- The digits so far as one integer. -/
  value : Nat := 0
  /-- How many digits have been read after the point. -/
  places : Nat := 0
  point : Bool := false
  digits : Bool := false
  underscores : Bool := false
  deriving DecidableEq, Repr

namespace Mantissa

/-- Takes digits, at most one point and underscores from the front of a text. -/
def scan (base : Nat) (m : Mantissa) : Bytes → Mantissa × Bytes
  | [] => (m, [])
  | c :: s =>
    if c == Ascii.underscore then scan base { m with underscores := true } s
    else if c == Ascii.dot then
      if m.point then (m, c :: s) else scan base { m with point := true } s
    else match Ascii.digitValue? c with
      | some d =>
        if d < base then
          let places := if m.point then m.places + 1 else m.places
          scan base { m with value := m.value * base + d, places, digits := true } s
        else (m, c :: s)
      | none => (m, c :: s)

end Mantissa

/-- The digits of an exponent, which may be separated by underscores. -/
def exponentDigits (n : Nat) (underscores : Bool) : Bytes → Nat × Bool × Bytes
  | [] => (n, underscores, [])
  | c :: s =>
    if Ascii.isDigit c then
      exponentDigits (if n < 10000 then n * 10 + (c.toNat - 48) else n) underscores s
    else if c == Ascii.underscore then exponentDigits n true s
    else (n, underscores, c :: s)

/-- The exponent after its letter: an optional sign and at least one digit. -/
def exponent? (s : Bytes) : Option (Int × Bool × Bytes) :=
  let (negative, r) := Numeral.sign s
  match r with
  | [] => none
  | c :: _ =>
    if Ascii.isDigit c then
      let (n, underscores, rest) := exponentDigits 0 false r
      some (if negative then -(n : Int) else n, underscores, rest)
    else none

/-- The double nearest to `m * 10 ^ e`; exponents beyond any double need no large powers. -/
def ofDecimal (negative : Bool) (m : Nat) (e : Int) : Double :=
  let size : Int := (Nat.toDigits 10 m).length
  if m = 0 || size + e < -400 then zero negative
  else if 400 < size + e then infinity negative
  else ofScaled negative m 10 e

/-- The double nearest to `m * 2 ^ e`; exponents beyond any double need no large powers. -/
def ofBinary (negative : Bool) (m : Nat) (e : Int) : Double :=
  let size : Int := m.log2
  if m = 0 || size + e < -2000 then zero negative
  else if 2000 < size + e then infinity negative
  else ofScaled negative m 2 e

/-- The names of values that are not finite, in any case; only infinity takes a sign. -/
def special? (s : Bytes) : Option Double :=
  let (negative, r) := Numeral.sign s
  let name := r.map Ascii.toLower
  if name == ("inf" : Bytes) || name == ("infinity" : Bytes) then some (infinity negative)
  else if s.map Ascii.toLower == ("nan" : Bytes) then some nan
  else none

/-- The digits of a number after its sign are hexadecimal. -/
def isHexadecimal : Bytes → Bool
  | 48 :: x :: _ :: _ => Ascii.toLower x == 120
  | _ => false

/-- A finite number, which may round to infinity. -/
def finite? (s : Bytes) : Option Double :=
  let (negative, r) := Numeral.sign s
  let hex := isHexadecimal r
  let (m, rest) := if hex then Mantissa.scan 16 {} (r.drop 2) else Mantissa.scan 10 {} r
  if !m.digits then none
  else
    let letter : UInt8 := if hex then 112 else 101
    let exponent := match rest with
      | c :: t => if Ascii.toLower c == letter then exponent? t else none
      | [] => if hex then none else some (0, false, [])
    match exponent with
    | some (e, underscores, []) =>
      if (m.underscores || underscores) && !Numeral.underscoresOk s then none
      else if hex then some (ofBinary negative m.value (e - 4 * m.places))
      else some (ofDecimal negative m.value (e - m.places))
    | _ => none

/-- The number a text denotes, infinity for a number beyond the largest double. -/
def parseRounded? (s : Bytes) : Option Double := (special? s).or (finite? s)

/-- The number a text denotes, which must not round to infinity. -/
def parse (s : Bytes) : Except Numeral.Fault Double :=
  match special? s, finite? s with
  | some x, _ => .ok x
  | none, none => .error .malformed
  | none, some x => if x.isInfinite then .error .outOfRange else .ok x

end Double

end ConsoleShell
