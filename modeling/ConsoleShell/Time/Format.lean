/-
Formatting of instants.

A format is plain text with conversions: a percent sign and a letter.  In addition `%f`
prints the nanoseconds, and `%f` with a width prints the fraction of the second rounded
to that many digits, without carrying into the seconds.
-/
import ConsoleShell.Text.Quoted
import ConsoleShell.Time.Instant

namespace ConsoleShell

namespace TimeFormat

/-- Why a format cannot be used. -/
inductive Cause where
  /-- The format ends in a percent sign. -/
  | strayPercent
  | unknownConversion (c : UInt8)
  deriving DecidableEq, Repr

/-- A format that cannot be used. -/
structure Fault where
  format : Bytes
  cause : Cause
  deriving DecidableEq, Repr

/-- The cause in words; the byte of a conversion is shown as the character of that number. -/
def Cause.message : Cause → Bytes
  | .strayPercent => "failed to compile format: stray % at the end of pattern"
  | .unknownConversion c =>
    ("failed to compile format: pattern compilation failed: lookup failed: '%" : Bytes) ++
      Utf8.encodeChar (Char.ofNat c.toNat) ++ "' was not found in specification set"

/-- The diagnostic for a format that cannot be used. -/
def Fault.message (f : Fault) : Bytes :=
  ("bad date format " : Bytes) ++ f.format.quoted ++ ": " ++ f.cause.message

/-! ### Conversions -/

/-- Two digits. -/
def two (n : Nat) : Bytes := Bytes.ofNatPadded 2 n

/-- Two places, the first a blank for one digit. -/
def twoBlank (n : Nat) : Bytes := (Bytes.ofNat n).padStart 2 Ascii.space

/-- At least four digits, after a minus sign for negative years. -/
def year4 (y : Int) : Bytes :=
  if y < 0 then Ascii.minus :: Bytes.ofNatPadded 4 y.natAbs else Bytes.ofNatPadded 4 y.natAbs

/-- The last two digits of a year; negative years count as zero. -/
def year2 (y : Int) : Bytes := two (y.toNat % 100)

/-- The hour on a clock of twelve hours. -/
def hour12 (h : Nat) : Nat := if h % 12 = 0 then 12 else h % 12

/-- Before or after noon. -/
def halfDay (h : Nat) : Bytes := if h < 12 then "AM" else "PM"

/-- The century, with a zero before values below ten. -/
def century (y : Int) : Bytes :=
  let n := y.tdiv 100
  (if n < 10 then "0" else "") ++ Bytes.ofInt n

/-- Hours, minutes and seconds. -/
def clock (c : Calendar) : Bytes := two c.hour ++ ":" ++ two c.minute ++ ":" ++ two c.second

/-- Month, day and the last digits of the year. -/
def slashDate (c : Calendar) : Bytes := two c.month ++ "/" ++ two c.day ++ "/" ++ year2 c.year

/-- What a conversion prints. -/
def conversion? (c : Calendar) (letter : UInt8) : Option Bytes :=
  let weekday := c.weekdayName
  let month := c.monthName
  match Char.ofNat letter.toNat with
  | 'A' => some weekday
  | 'a' => some (weekday.take 3)
  | 'B' => some month
  | 'b' => some (month.take 3)
  | 'h' => some (month.take 3)
  | 'C' => some (century c.year)
  | 'c' =>
    some (weekday.take 3 ++ " " ++ month.take 3 ++ " " ++ twoBlank c.day ++ " " ++ clock c ++ " " ++
      year4 c.year)
  | 'D' => some (slashDate c)
  | 'x' => some (slashDate c)
  | 'd' => some (two c.day)
  | 'e' => some (twoBlank c.day)
  | 'F' => some (year4 c.year ++ "-" ++ two c.month ++ "-" ++ two c.day)
  | 'H' => some (two c.hour)
  | 'I' => some (two (hour12 c.hour))
  | 'j' => some (Bytes.ofNatPadded 3 c.yearDay)
  | 'k' => some (twoBlank c.hour)
  | 'l' => some (twoBlank (hour12 c.hour))
  | 'M' => some (two c.minute)
  | 'm' => some (two c.month)
  | 'n' => some [Ascii.newline]
  | 'p' => some (halfDay c.hour)
  | 'R' => some (two c.hour ++ ":" ++ two c.minute)
  | 'r' =>
    some (two (hour12 c.hour) ++ ":" ++ two c.minute ++ ":" ++ two c.second ++ " " ++ halfDay c.hour)
  | 'S' => some (two c.second)
  | 'T' => some (clock c)
  | 'X' => some (clock c)
  | 't' => some [Ascii.tab]
  | 'U' => some (two (c.weekFrom 0))
  | 'u' => some (Bytes.ofNat (if c.weekday = 0 then 7 else c.weekday))
  | 'V' => some (two c.isoWeek)
  | 'v' => some (twoBlank c.day ++ "-" ++ month.take 3 ++ "-" ++ year4 c.year)
  | 'W' => some (two (c.weekFrom 1))
  | 'w' => some (Bytes.ofNat c.weekday)
  | 'Y' => some (year4 c.year)
  | 'y' => some (year2 c.year)
  | 'Z' => some "UTC"
  | 'z' => some "+0000"
  | '%' => some "%"
  | _ => none

/-- Replaces the conversions of a format without fractions. -/
def convert (c : Calendar) : Bytes → Except Cause Bytes
  | [] => .ok []
  | 37 :: [] => .error .strayPercent
  | 37 :: letter :: s =>
    match conversion? c letter with
    | none => .error (.unknownConversion letter)
    | some text => (convert c s).map (text ++ ·)
  | x :: s => (convert c s).map (x :: ·)

/-! ### Fractions of the second -/

/-- The most digits a fraction has. -/
abbrev maxDigits : Nat := 9

/-- A width read digit by digit as a signed number of 64 bits, which may wrap around. -/
def widthOf (digits : Bytes) : Int :=
  digits.foldl (fun n c => (n * 10 + (c.toNat - 48 : Nat)).bmod (2 ^ 64)) 0

/-- The width of a fraction whose text after the percent sign is given, and what follows it. -/
def fraction? (s : Bytes) : Option (Nat × Bytes) :=
  match s.dropWhile Ascii.isDigit with
  | 102 :: rest =>
    let ds := s.takeWhile Ascii.isDigit
    if ds.isEmpty then some (maxDigits, rest)
    else if 0 < widthOf ds then some (min (widthOf ds).toNat maxDigits, rest)
    else none
  | _ => none

/-- The text before the first fraction, and the fraction with its width and what follows it. -/
def splitFraction : Bytes → Bytes × Option (Nat × Bytes)
  | [] => ([], none)
  | 37 :: 37 :: s =>
    let (text, found) := splitFraction s
    (37 :: 37 :: text, found)
  | c :: s =>
    match if c == Ascii.percent then fraction? s else none with
    | some found => ([], some found)
    | none =>
      let (text, found) := splitFraction s
      (c :: text, found)

/-- The fraction of a second in the given number of digits: rounded to the nearest, but never
up to the next second. -/
def fraction (nanoseconds width : Nat) : Bytes :=
  let unit := 10 ^ (maxDigits - width)
  Bytes.ofNatPadded width (min (nanoseconds + unit / 2) 999999999 / unit)

/-- Formats an instant; each step of `fuel` takes one fraction. -/
def formatFrom (t : Instant) (fuel : Nat) (format : Bytes) : Except Fault Bytes :=
  match fuel with
  | 0 => .ok []
  | fuel + 1 =>
    let (text, found) := splitFraction format
    match convert (.ofInstant t) text with
    | .error cause => .error ⟨text, cause⟩
    | .ok out =>
      match found with
      | none => .ok out
      | some (width, rest) =>
        (formatFrom t fuel rest).map fun tail => out ++ fraction t.nanoseconds width ++ tail

/-- Formats an instant. -/
def format (format : Bytes) (t : Instant) : Except Fault Bytes :=
  formatFrom t (format.length + 1) format

/-- The format used when none is given. -/
def default : Bytes := "%Y/%m/%d %H:%M:%S.%06f"

end TimeFormat

end ConsoleShell
