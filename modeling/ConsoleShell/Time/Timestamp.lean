/-
Written timestamps.

A timestamp is a date, a time of the day and a zone: `2024-03-05T14:07:09.5+01:00`.  The
hour may have one digit, the fraction may follow a comma, and an offset may be as large as
24 hours and 60 minutes.
-/
import ConsoleShell.Time.Instant

namespace ConsoleShell

namespace Timestamp

/-- A number of exactly two digits at the front of a text. -/
def twoDigits? : Bytes → Option (Nat × Bytes)
  | a :: b :: s =>
    if Ascii.isDigit a && Ascii.isDigit b then
      some ((a.toNat - 48) * 10 + (b.toNat - 48), s)
    else none
  | _ => none

/-- A number of one or two digits at the front of a text. -/
def upToTwoDigits? (s : Bytes) : Option (Nat × Bytes) :=
  match twoDigits? s with
  | some r => some r
  | none =>
    match s with
    | a :: s => if Ascii.isDigit a then some (a.toNat - 48, s) else none
    | [] => none

/-- What follows a byte at the front of a text. -/
def after? (c : UInt8) : Bytes → Option Bytes
  | x :: s => if x == c then some s else none
  | [] => none

/-- A date with its parts separated by hyphens, the day being one of its month; `number?`
reads month and day. -/
def date? (number? : Bytes → Option (Nat × Bytes)) (s : Bytes) : Option Bytes := do
  let (century, s) ← twoDigits? s
  let (year, s) ← twoDigits? s
  let (month, s) ← number? (← after? Ascii.minus s)
  let (day, s) ← number? (← after? Ascii.minus s)
  let length ← if month = 0 then none else (Calendar.monthLengths (century * 100 + year))[month - 1]?
  if 1 ≤ day && day ≤ length then some s else none

/-- The fraction of a second, if one stands at the front of a text, is dropped. -/
def dropFraction : Bytes → Bytes
  | a :: b :: s =>
    if (a == Ascii.dot || a == Ascii.comma) && Ascii.isDigit b then s.dropWhile Ascii.isDigit
    else a :: b :: s
  | s => s

/-- A time of the day with its parts separated by colons; `number?` reads minute and second. -/
def clock? (number? : Bytes → Option (Nat × Bytes)) (s : Bytes) : Option Bytes := do
  let (hour, s) ← upToTwoDigits? s
  let (minute, s) ← number? (← after? Ascii.colon s)
  let (second, s) ← number? (← after? Ascii.colon s)
  if hour < 24 && minute < 60 && second < 60 then some (dropFraction s) else none

/-- A zone: the letter `Z`, or a sign, hours and minutes. -/
def zone? : Bytes → Option Bytes
  | 90 :: s => some s
  | sign :: s => do
    let (hours, s) ← twoDigits? s
    let (minutes, s) ← twoDigits? (← after? Ascii.colon s)
    if (sign == Ascii.plus || sign == Ascii.minus) && hours ≤ 24 && minutes ≤ 60 then some s
    else none
  | [] => none

/-- The text is a timestamp. -/
def isValid (s : Bytes) : Bool :=
  let rest := do
    let s ← date? twoDigits? s
    let s ← clock? twoDigits? (← after? 84 s)
    zone? s
  rest == some []

end Timestamp

end ConsoleShell
