/-
Floating-point numbers of 64 bits.

A double is its bit pattern.  Arithmetic decodes the operands into an integer times a
power of two, computes exactly and rounds the result once, to the nearest double and on
a tie to the even one, so every operation here is a function on numbers that can be
evaluated and reasoned about.
-/
import ConsoleShell.Text.Bytes

namespace ConsoleShell

/-- A floating-point number of 64 bits, given by its bit pattern. -/
structure Double where
  bits : UInt64
  deriving DecidableEq, Repr, Inhabited

namespace Double

/-- What a bit pattern denotes. -/
inductive Value where
  | nan
  | infinite (negative : Bool)
  /-- The number `mantissa * 2 ^ exponent` with a sign. -/
  | finite (negative : Bool) (mantissa : Nat) (exponent : Int)
  deriving DecidableEq, Repr

/-- The number that a bit pattern denotes. -/
def value (x : Double) : Value :=
  let n := x.bits.toNat
  let negative := 2 ^ 63 ≤ n
  let field : Nat := n / 2 ^ 52 % 2048
  let fraction := n % 2 ^ 52
  if field = 2047 then if fraction = 0 then .infinite negative else .nan
  else if field = 0 then .finite negative fraction (-1074)
  else .finite negative (2 ^ 52 + fraction) ((field : Int) - 1075)

/-- A magnitude of 63 bits with a sign bit. -/
def withSign (negative : Bool) (magnitude : Nat) : Double :=
  ⟨(if negative then 2 ^ 63 + magnitude else magnitude).toUInt64⟩

/-- Zero with a sign. -/
def zero (negative : Bool) : Double := withSign negative 0

/-- Infinity with a sign. -/
def infinity (negative : Bool) : Double := withSign negative (2047 * 2 ^ 52)

/-- A quiet not-a-number. -/
def nan : Double := withSign false (2047 * 2 ^ 52 + 2 ^ 51 + 1)

/-- The integer nearest to `num / den`, the even one of two at the same distance. -/
def roundDiv (num den : Nat) : Nat :=
  let q := num / den
  let r := num % den
  if 2 * r < den then q
  else if den < 2 * r then q + 1
  else if q % 2 = 0 then q else q + 1

/-- `num / den * 2 ^ (-e)` as a pair of numerator and denominator. -/
def scale (num den : Nat) (e : Int) : Nat × Nat :=
  if 0 ≤ e then (num, den * 2 ^ e.toNat) else (num * 2 ^ (-e).toNat, den)

/-- The double nearest to `num / den` (with `den` positive), with the given sign.  Values
beyond the largest double become infinite. -/
def ofRatio (negative : Bool) (num den : Nat) : Double :=
  if num = 0 then zero negative
  else
    let guess : Int := max ((num.log2 : Int) - den.log2 - 53) (-1074)
    let (n, d) := scale num den guess
    let e := if 2 ^ 53 ≤ n / d then guess + 1 else guess
    let (n, d) := scale num den e
    let q := roundDiv n d
    -- the leading bit of `q`, and a carry out of it, count into the exponent field
    let magnitude := (e + 1074).toNat * 2 ^ 52 + q
    if 2047 * 2 ^ 52 ≤ magnitude then infinity negative else withSign negative magnitude

/-- The double nearest to `m * base ^ e`. -/
def ofScaled (negative : Bool) (m base : Nat) (e : Int) : Double :=
  if 0 ≤ e then ofRatio negative (m * base ^ e.toNat) 1
  else ofRatio negative m (base ^ (-e).toNat)

/-- The double nearest to an integer. -/
def ofInt (n : Int) : Double := ofRatio (n < 0) n.natAbs 1

/-- The sign bit. -/
def signBit (x : Double) : Bool := 2 ^ 63 ≤ x.bits.toNat

/-- Not a number. -/
def isNaN (x : Double) : Bool := x.value == .nan

/-- One of the two infinities. -/
def isInfinite (x : Double) : Bool :=
  match x.value with
  | .infinite _ => true
  | _ => false

/-- The number is zero (of either sign) or below; false for not-a-number. -/
def isNonPositive (x : Double) : Bool :=
  match x.value with
  | .nan => false
  | .infinite negative => negative
  | .finite negative m _ => negative || m == 0

/-- The product, rounded once. -/
def mul (x y : Double) : Double :=
  match x.value, y.value with
  | .nan, _ => nan
  | _, .nan => nan
  | .infinite s, .infinite t => infinity (s != t)
  | .infinite s, .finite t m _ => if m = 0 then nan else infinity (s != t)
  | .finite s m _, .infinite t => if m = 0 then nan else infinity (s != t)
  | .finite s m e, .finite t n f => ofScaled (s != t) (m * n) 2 (e + f)

/-- The quotient, rounded once. -/
def div (x y : Double) : Double :=
  match x.value, y.value with
  | .nan, _ => nan
  | _, .nan => nan
  | .infinite _, .infinite _ => nan
  | .infinite s, .finite t _ _ => infinity (s != t)
  | .finite s _ _, .infinite t => zero (s != t)
  | .finite s m e, .finite t n f =>
    if n = 0 then if m = 0 then nan else infinity (s != t)
    else
      let (a, b) := scale m n (f - e)
      ofRatio (s != t) a b

/-- The integer part, for a finite number. -/
def truncate? (x : Double) : Option Int :=
  match x.value with
  | .finite negative m e =>
    let n := if 0 ≤ e then m * 2 ^ e.toNat else m / 2 ^ (-e).toNat
    some (if negative then -(n : Int) else n)
  | _ => none

/-- The integer part as a signed number of 64 bits; the least one when it does not fit. -/
def toInt64 (x : Double) : Int :=
  match x.truncate? with
  | some n => if -2 ^ 63 ≤ n && n < 2 ^ 63 then n else -2 ^ 63
  | none => -2 ^ 63

end Double

end ConsoleShell
