/-
Decimal digits of floating-point numbers.

A finite double is an exact rational number.  It is written either with the fewest
digits that read back as the same double, or rounded to a number of digits or places;
a tie goes to the even digit.  The layouts put a point and an exponent into the digits.
-/
import ConsoleShell.Number.Double

namespace ConsoleShell

/-- A decimal number `0.d₁d₂… * 10 ^ point` without its sign; the last digit is not zero. -/
structure Decimal where
  digits : List Nat
  point : Int
  deriving DecidableEq, Repr

namespace Decimal

/-- The number zero. -/
def zero : Decimal := ⟨[], 0⟩

/-- The digits of an integer and its number of trailing zeros taken off. -/
def stripZeros (ds : List Nat) : List Nat := (ds.reverse.dropWhile (· == 0)).reverse

/-- The number `n * 10 ^ e`. -/
def ofScaled (n : Nat) (e : Int) : Decimal :=
  if n = 0 then zero
  else
    let ds := (Nat.toDigits 10 n).map fun c => c.toNat - 48
    ⟨stripZeros ds, ds.length + e⟩

/-- `num / den` is below `10 ^ e`. -/
def belowPower (num den : Nat) (e : Int) : Bool :=
  if 0 ≤ e then num < den * 10 ^ e.toNat else num * 10 ^ (-e).toNat < den

/-- The first exponent from `e` upward that bounds `num / den`, in at most `steps` steps. -/
def climb (num den : Nat) : Nat → Int → Int
  | 0, e => e
  | steps + 1, e => if belowPower num den e then e else climb num den steps (e + 1)

/-- The number of digits before the point of `num / den`: the least `e` with
`num / den < 10 ^ e`.  The search starts at an estimate from below. -/
def magnitude (num den : Nat) : Int :=
  climb num den 5 (((num.log2 : Int) - den.log2 - 1) * 30103 / 100000 - 1)

/-- `num / den` divided by `10 ^ e`, as numerator and denominator. -/
def scale10 (num den : Nat) (e : Int) : Nat × Nat :=
  if 0 ≤ e then (num, den * 10 ^ e.toNat) else (num * 10 ^ (-e).toNat, den)

/-- `num / den` rounded to a multiple of `10 ^ e`. -/
def roundTo (num den : Nat) (e : Int) : Decimal :=
  let (n, d) := scale10 num den e
  ofScaled (Double.roundDiv n d) e

/-- The interval of the reals that round to a double, in fractions over one denominator:
the lower end, the number itself, the upper end, the denominator, and whether the ends
belong to the interval. -/
structure Interval where
  low : Nat
  mid : Nat
  high : Nat
  den : Nat
  closed : Bool

/-- The interval of the reals that round to `m * 2 ^ e`, for binary numbers whose mantissas
have `bits` bits after the leading one and whose least exponent is `least`. -/
def interval (bits : Nat) (least : Int) (m : Nat) (e : Int) : Interval :=
  -- below a power of two the numbers are twice as dense
  let low := if m = 2 ^ bits && least < e then 4 * m - 1 else 4 * m - 2
  let (p, d) := if 0 ≤ e then (2 ^ e.toNat, 4) else (1, 4 * 2 ^ (-e).toNat)
  ⟨low * p, 4 * m * p, (4 * m + 2) * p, d, m % 2 = 0⟩

/-- `n * 10 ^ e` lies in the interval. -/
def Interval.contains (i : Interval) (n : Nat) (e : Int) : Bool :=
  let (lhs, unit) := if 0 ≤ e then (n * 10 ^ e.toNat * i.den, 1) else (n * i.den, 10 ^ (-e).toNat)
  if i.closed then i.low * unit ≤ lhs && lhs ≤ i.high * unit
  else i.low * unit < lhs && lhs < i.high * unit

/-- The shortest decimal in the interval, trying one digit after another. -/
def Interval.shortest (i : Interval) (magnitude : Int) (digits : Nat) : Nat → Decimal
  | 0 => roundTo i.mid i.den (magnitude - 17)
  | fuel + 1 =>
    let e := magnitude - digits
    let (n, d) := scale10 i.mid i.den e
    let below := n / d
    let nearest := Double.roundDiv n d
    let other := if nearest = below then below + 1 else below
    if i.contains nearest e then ofScaled nearest e
    else if i.contains other e then ofScaled other e
    else i.shortest magnitude (digits + 1) fuel

/-- The fewest digits that read back as the binary number `m * 2 ^ e`, the nearest of those. -/
def shortestOf (bits : Nat) (least : Int) (m : Nat) (e : Int) : Decimal :=
  if m = 0 then zero
  else
    let i := interval bits least m e
    i.shortest (magnitude i.mid i.den) 1 17

/-- The fewest digits that read back as the double `m * 2 ^ e`, the nearest of those. -/
def shortest (m : Nat) (e : Int) : Decimal := shortestOf 52 (-1074) m e

/-- The number of single precision nearest to `m * 2 ^ e`, as mantissa and exponent; none if
it is beyond the largest. -/
def single? (m : Nat) (e : Int) : Option (Nat × Int) :=
  let exponent := max (e + m.log2 - 23) (-149)
  let (n, d) := Double.scale m 1 (exponent - e)
  let q := Double.roundDiv n d
  let (q, exponent) := if q = 2 ^ 24 then (2 ^ 23, exponent + 1) else (q, exponent)
  if 104 < exponent then none else some (q, exponent)

/-- The double `m * 2 ^ e` as numerator and denominator. -/
def ratio (m : Nat) (e : Int) : Nat × Nat :=
  if 0 ≤ e then (m * 2 ^ e.toNat, 1) else (m, 2 ^ (-e).toNat)

/-- The double `m * 2 ^ e` rounded to a number of significant digits. -/
def significant (digits m : Nat) (e : Int) : Decimal :=
  if m = 0 then zero
  else
    let (n, d) := ratio m e
    roundTo n d (magnitude n d - digits)

/-- The double `m * 2 ^ e` rounded to a number of places after the point. -/
def places (count m : Nat) (e : Int) : Decimal :=
  let (n, d) := ratio m e
  roundTo n d (-(count : Int))

/-! ### Layouts -/

/-- The digit at a position counted from the point, zero where none is stored. -/
def digitAt (x : Decimal) (i : Int) : UInt8 :=
  if 0 ≤ i then Ascii.ofDigit (x.digits.getD i.toNat 0) else 48

/-- Positional layout with a number of places after the point. -/
def positional (x : Decimal) (count : Nat) : Bytes :=
  let whole :=
    if 0 < x.point then (List.range x.point.toNat).map fun (i : Nat) => x.digitAt i
    else [48]
  if count = 0 then whole
  else whole ++ Ascii.dot :: (List.range count).map fun (i : Nat) => x.digitAt (x.point + i)

/-- Layout with one digit before the point, a number of places and an exponent of at least
the given width. -/
def scientific (x : Decimal) (count width : Nat) : Bytes :=
  let lead := x.digitAt 0
  let tail := if count = 0 then []
    else Ascii.dot :: (List.range count).map fun (i : Nat) => x.digitAt (i + 1)
  let e : Int := if x.digits.isEmpty then 0 else x.point - 1
  let mark : Bytes := if e < 0 then "e-" else "e+"
  lead :: tail ++ mark ++ Bytes.ofNatPadded width e.natAbs

/-- The layout chosen by size: an exponent below `10 ^ (-4)` and from `limit` digits on. -/
def general (x : Decimal) (count : Nat) (limit : Int) : Bytes :=
  let e := x.point - 1
  if e < -4 || limit ≤ e then
    scientific x (min count x.digits.length - 1) 2
  else
    let count : Int := if x.point < count then x.digits.length else count
    positional x (max (count - x.point) 0).toNat

end Decimal

namespace Double

/-- Puts the sign in front of the digits of a finite double and names the other values. -/
def format (x : Double) (infinite : Bool → Bytes) (finite : Nat → Int → Bytes) : Bytes :=
  match x.value with
  | .nan => "NaN"
  | .infinite negative => infinite negative
  | .finite negative m e => if negative then Ascii.minus :: finite m e else finite m e

/-- Infinity with an explicit sign. -/
def signedInfinity (negative : Bool) : Bytes := if negative then "-Inf" else "+Inf"

/-- Six significant digits, positional up to six digits before the point. -/
def toSixDigits (x : Double) : Bytes :=
  x.format signedInfinity fun m e =>
    let d := Decimal.significant 6 m e
    let stored : Int := d.digits.length
    d.general 6 (if stored < 6 && d.point ≤ stored then stored else 6)

/-- One place after the point. -/
def toOnePlace (x : Double) : Bytes :=
  x.format signedInfinity fun m e => (Decimal.places 1 m e).positional 1

/-- The fewest digits that read back, with an exponent from `10 ^ 6` on. -/
def toShortest (x : Double) : Bytes :=
  x.format signedInfinity fun m e =>
    let d := Decimal.shortest m e
    d.general d.digits.length 6

/-- The fewest digits that read back in single precision, with an exponent from `10 ^ 6` on. -/
def toShortestSingle (x : Double) : Bytes :=
  match x.value with
  | .finite negative m e =>
    match Decimal.single? m e with
    | none => signedInfinity negative
    | some (m, e) =>
      let d := Decimal.shortestOf 23 (-149) m e
      (if negative then [Ascii.minus] else []) ++ d.general d.digits.length 6
  | _ => x.toShortest

/-- The fewest digits that read back, positional between `10 ^ (-6)` and `10 ^ 21`. -/
def toJson (x : Double) : Bytes :=
  x.format signedInfinity fun m e =>
    let d := Decimal.shortest m e
    if m ≠ 0 && (d.point ≤ -6 || 21 < d.point) then d.scientific (d.digits.length - 1) 1
    else d.positional (max ((d.digits.length : Int) - d.point) 0).toNat

end Double

end ConsoleShell
