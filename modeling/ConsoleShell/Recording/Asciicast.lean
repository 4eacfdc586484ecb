/-
Recordings as lines of JSON.

The first line describes the terminal and the time of the first entry.  Each line after it
is a list of three items: seconds since the first entry, the direction and the data.  The
format has no end of the session and does not tell the two output streams apart.
-/
import ConsoleShell.Json.Reader
import ConsoleShell.Number.Decimal
import ConsoleShell.Number.DoubleReader
import ConsoleShell.Recording.Entry

namespace ConsoleShell

namespace Recording

namespace Asciicast

/-! ### Writing -/

/-- How strings are written. -/
def style : Json.Style := { markup := true }

/-- One value on a line. -/
def line (v : Json) : Bytes := (v.render style).line

/-- The first line, for a recording whose first entry has the given time. -/
def header (start : Int) : Bytes :=
  line (.object [
    ("env", .object [("SHELL", .string "iocsh"), ("TERM", .string "xterm-256color")]),
    ("height", .ofNat 24),
    ("timestamp", .ofInt (start / 1000000)),
    ("title", .string "iocsh console session"),
    ("version", .ofNat 2),
    ("width", .ofNat 80)])

/-- Microseconds in seconds. -/
def toSeconds (micros : Int) : Double := ((Double.ofInt micros).mul (.ofInt 1000)).div (.ofInt 1000000000)

/-- The letter for the direction of a stream. -/
def direction (fd : Int) : Bytes := if fd == 0 then "i" else "o"

/-- The line of an entry; the difference of the times is a signed number of 64 bits. -/
def event (start : Int) (e : Entry) : Bytes :=
  let seconds := toSeconds ((e.time - start).bmod (2 ^ 64))
  line (.array [.number seconds.toJson, .string (direction e.fd), .string e.data])

/-! ### Reading -/

/-- Why a line is no event. -/
inductive Fault where
  /-- The line is no list of values. -/
  | notList
  | wrongCount (count : Nat)
  /-- The items are not a number and two strings. -/
  | wrongItems (items : List Json)

mutual

/-- The value of a number, for every number in a value; none if one is out of range. -/
def inRange : Json → Bool
  | .number t => (Double.parse t).toOption.isSome
  | .array xs => allInRange xs
  | .object fs => fieldsInRange fs
  | _ => true

/-- Every number in a list is in range. -/
def allInRange : List Json → Bool
  | [] => true
  | x :: xs => inRange x && allInRange xs

/-- Every number in the fields of an object is in range. -/
def fieldsInRange : List (Bytes × Json) → Bool
  | [] => true
  | (_, v) :: fs => inRange v && fieldsInRange fs

end

/-- Puts a key with its shown value at its place among sorted keys; a later value for a key
counts. -/
def insertField (k v : Bytes) : List (Bytes × Bytes) → List (Bytes × Bytes)
  | [] => [(k, v)]
  | (x, w) :: rest =>
    if x == k then (k, v) :: rest
    else if k.lt x then (k, v) :: (x, w) :: rest
    else (x, w) :: insertField k v rest

mutual

/-- How a value is shown in a diagnostic: strings in quotes, other values with their type. -/
def shown : Json → Bytes
  | .null => "<nil>"
  | .bool b => ("%!q(bool=" : Bytes) ++ (if b then "true" else "false") ++ ")"
  | .number t =>
    ("%!q(float64=" : Bytes) ++ ((Double.parseRounded? t).getD (.zero false)).toShortest ++ ")"
  | .string s => s.quoted
  | .array xs => ("[" : Bytes) ++ Bytes.join [Ascii.space] (shownItems xs) ++ "]"
  | .object fs =>
    ("map[" : Bytes) ++
      Bytes.join [Ascii.space] ((shownFields [] fs).map fun (k, v) => k.quoted ++ ":" ++ v) ++ "]"

/-- How the items of a list are shown. -/
def shownItems : List Json → List Bytes
  | [] => []
  | x :: xs => shown x :: shownItems xs

/-- How the fields of an object are shown, by increasing key. -/
def shownFields (done : List (Bytes × Bytes)) : List (Bytes × Json) → List (Bytes × Bytes)
  | [] => done
  | (k, v) :: fs => shownFields (insertField k (shown v) done) fs

end

/-- The diagnostic for a line that is no event, if it has words of its own. -/
def Fault.message? : Fault → Option Bytes
  | .notList => none
  | .wrongCount n => some (("malformed line, expected 3 entries got " : Bytes) ++ Bytes.ofNat n)
  | .wrongItems items => some (("malformed data in line: " : Bytes) ++ shown (.array items))

/-- Seconds in microseconds, cut off. -/
def toMicros (seconds : Double) : Int := ((seconds.mul (.ofInt 1000000000)).toInt64).tdiv 1000

/-- The entry of an event; events of other kinds have none. -/
def entryOf? (seconds : Double) (kind data : Bytes) : Option Entry :=
  if kind == "o" then some { time := toMicros seconds, fd := 1, data }
  else if kind == "i" then some { time := toMicros seconds, fd := 0, data }
  else none

/-- The entry on a line, if it has one. -/
def readLine (text : Bytes) : Except Fault (Option Entry) :=
  match Json.parse? text with
  | some .null => .error (.wrongCount 0)
  | some (.array items) =>
    if !allInRange items then .error .notList
    else match items with
      | [.number t, .string kind, .string data] =>
        .ok (entryOf? ((Double.parseRounded? t).getD (.zero false)) kind data)
      | [_, _, _] => .error (.wrongItems items)
      | _ => .error (.wrongCount items.length)
  | _ => .error .notList

/-- The lines of a text that are ended by a newline. -/
def fullLines (s : Bytes) : List Bytes := (s.splitOn Ascii.newline).dropLast

/-- The entries on lines up to the first fault; empty lines are skipped. -/
def readLines : List Bytes → List Entry × Option Fault
  | [] => ([], none)
  | text :: rest =>
    if text.isEmpty then readLines rest
    else match readLine text with
      | .error f => ([], some f)
      | .ok none => readLines rest
      | .ok (some e) =>
        let (es, f) := readLines rest
        (e :: es, f)

/-- The entries of a recording up to the first fault.  The first line is not looked at, and a
last line without an end is dropped. -/
def read (s : Bytes) : List Entry × Option Fault := readLines (fullLines s).tail

end Asciicast

end Recording

end ConsoleShell
