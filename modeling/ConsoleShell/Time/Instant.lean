/-
Instants and calendar dates.

An instant counts seconds from the beginning of 1970, in universal time, and nanoseconds
within the second.  The calendar is the Gregorian one, extended to all years.
-/
import ConsoleShell.Text.Bytes

namespace ConsoleShell

/-- A point in time. -/
structure Instant where
  seconds : Int
  nanoseconds : Nat
  deriving DecidableEq, Repr

/-- An instant from seconds and nanoseconds, which may be out of range. -/
def Instant.ofNanoseconds (seconds nanoseconds : Int) : Instant :=
  ⟨seconds + nanoseconds / 1000000000, (nanoseconds % 1000000000).toNat⟩

/-- An instant from microseconds. -/
def Instant.ofMicroseconds (t : Int) : Instant :=
  ⟨t / 1000000, (t % 1000000).toNat * 1000⟩

/-- A date with the time of the day. -/
structure Calendar where
  year : Int
  /-- From 1 to 12. -/
  month : Nat
  /-- From 1 on. -/
  day : Nat
  hour : Nat
  minute : Nat
  second : Nat
  /-- Days since Sunday. -/
  weekday : Nat
  /-- The day of the year, from 1 on. -/
  yearDay : Nat
  deriving DecidableEq, Repr

namespace Calendar

/-- The year has a 29th of February. -/
def isLeap (year : Int) : Bool := year % 4 == 0 && (year % 100 != 0 || year % 400 == 0)

/-- The number of days before the given year, counted from the beginning of 1970. -/
def daysBefore (year : Int) : Int :=
  let y := year - 1
  y * 365 + y / 4 - y / 100 + y / 400 - 719162

/-- The year that holds a day counted from the beginning of 1970. -/
def yearOf (day : Int) : Int :=
  -- the mean length of a year gives the year or the one after it
  let guess := (day + 719162) * 400 / 146097 + 1
  if day < daysBefore guess then guess - 1
  else if daysBefore (guess + 1) ≤ day then guess + 1
  else guess

/-- The lengths of the months. -/
def monthLengths (year : Int) : List Nat :=
  [31, if isLeap year then 29 else 28, 31, 30, 31, 30, 31, 31, 30, 31, 30, 31]

/-- The month and the day of the month, from the lengths of the months left and the days left. -/
def monthDay (month : Nat) : List Nat → Nat → Nat × Nat
  | [], d => (month, d + 1)
  | n :: ns, d => if d < n || ns.isEmpty then (month, d + 1) else monthDay (month + 1) ns (d - n)

/-- The date and time of an instant. -/
def ofInstant (t : Instant) : Calendar :=
  let day := t.seconds / 86400
  let rest := (t.seconds % 86400).toNat
  let year := yearOf day
  let yearDay := (day - daysBefore year).toNat
  let (month, dayOfMonth) := monthDay 1 (monthLengths year) yearDay
  { year, month, day := dayOfMonth, hour := rest / 3600, minute := rest / 60 % 60,
    second := rest % 60, weekday := ((day + 4) % 7).toNat, yearDay := yearDay + 1 }

/-- The number of the week in the sense of ISO 8601: the week belongs to the year of its
Thursday. -/
def isoWeek (c : Calendar) : Nat :=
  let day := daysBefore c.year + c.yearDay - 1
  let thursday := day + 3 - ((c.weekday : Int) + 6) % 7
  ((thursday - daysBefore (yearOf thursday)) / 7).toNat + 1

/-- The number of the week counted from the first day of the year that is weekday `first`,
days before it being in week zero. -/
def weekFrom (c : Calendar) (first : Nat) : Nat :=
  let offset := (c.weekday + 7 - first) % 7
  if c.yearDay < offset then 0 else (c.yearDay - offset) / 7 + 1

/-- The names of the weekdays from Sunday on. -/
def weekdayNames : List String :=
  ["Sunday", "Monday", "Tuesday", "Wednesday", "Thursday", "Friday", "Saturday"]

/-- The names of the months. -/
def monthNames : List String :=
  ["January", "February", "March", "April", "May", "June", "July", "August", "September",
    "October", "November", "December"]

/-- The name of the weekday. -/
def weekdayName (c : Calendar) : Bytes := weekdayNames.getD c.weekday ""

/-- The name of the month. -/
def monthName (c : Calendar) : Bytes := monthNames.getD (c.month - 1) ""

end Calendar

end ConsoleShell
