/-
Lengths of time.

A length of time is written as numbers with units, such as `1h30m` or `1.5s`, after an
optional sign.
-/
import ConsoleShell.Text.Quoted

namespace ConsoleShell

namespace Duration

/-- Why a text is no length of time. -/
inductive Fault where
  | malformed (text : Bytes)
  | missingUnit (text : Bytes)
  | unknownUnit (unit text : Bytes)
  deriving DecidableEq, Repr

/-- The fault in words. -/
def Fault.message : Fault → Bytes
  | .malformed t => ("time: invalid duration " : Bytes) ++ t.quoted
  | .missingUnit t => ("time: missing unit in duration " : Bytes) ++ t.quoted
  | .unknownUnit u t => ("time: unknown unit " : Bytes) ++ u.quoted ++ " in duration " ++ t.quoted

/-- Units with their lengths in nanoseconds. -/
def units : List (Bytes × Nat) :=
  [("ns", 1), ("us", 1000), ("µs", 1000), ("μs", 1000), ("ms", 1000000), ("s", 1000000000),
    ("m", 60000000000), ("h", 3600000000000)]

/-- A byte of a number. -/
def isNumeric (c : UInt8) : Bool := c == Ascii.dot || Ascii.isDigit c

/-- The number that digits denote. -/
def ofDigits (ds : Bytes) : Nat := ds.foldl (fun n c => n * 10 + (c.toNat - 48)) 0

/-- The longest length of time in nanoseconds. -/
abbrev limit : Nat := 2 ^ 63

/-- One number with its unit: its length in nanoseconds, and what follows it. -/
def part (text s : Bytes) : Except Fault (Nat × Bytes) := do
  let whole := s.takeWhile Ascii.isDigit
  let (fraction, s) := match s.dropWhile Ascii.isDigit with
    | c :: r => if c = Ascii.dot then (r.takeWhile Ascii.isDigit, r.dropWhile Ascii.isDigit)
      else ([], c :: r)
    | [] => ([], [])
  if whole.isEmpty && fraction.isEmpty then throw (.malformed text)
  let unit := s.takeWhile fun c => !isNumeric c
  if limit < ofDigits whole then throw (.malformed text)
  if unit.isEmpty then throw (.missingUnit text)
  match units.find? fun u => u.1 == unit with
  | none => throw (.unknownUnit unit text)
  | some (_, length) =>
    let total := ofDigits whole * length + ofDigits fraction * length / 10 ^ fraction.length
    if limit < total then throw (.malformed text)
    return (total, s.dropWhile fun c => !isNumeric c)

/-- The sum of the parts of a text; each step of `fuel` takes a part. -/
def parts (text : Bytes) : Nat → Bytes → Except Fault Nat
  | 0, _ => .ok 0
  | fuel + 1, s =>
    if s.isEmpty then .ok 0
    else do
      let (n, rest) ← part text s
      return n + (← parts text fuel rest)

/-- Reads a length of time in nanoseconds. -/
def parse (text : Bytes) : Except Fault Int := do
  let (negative, s) := match text with
    | c :: r => if c = Ascii.minus then (true, r) else if c = Ascii.plus then (false, r) else (false, text)
    | [] => (false, [])
  if s == "0" then return 0
  if s.isEmpty then throw (.malformed text)
  let n ← parts text s.length s
  if (if negative then limit else limit - 1) < n then throw (.malformed text)
  return if negative then -n else n

end Duration

end ConsoleShell
