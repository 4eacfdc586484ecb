/-
Reading an event log.

A log is a sequence of JSON values, one for each event, with blanks between them.  The
keys of an event are recognised in any case, the last of several equal keys counts, and
keys without a meaning are skipped.
-/
import ConsoleShell.Json.Reader
import ConsoleShell.Time.Timestamp

namespace ConsoleShell

/-- An event as it was read back from a log.  A field that the event lacks is empty. -/
structure LogEntry where
  level : Bytes := []
  event : Bytes := []
  session : Bytes := []
  source : Bytes := []
  command : List Bytes := []
  error : Bytes := []
  context : Bytes := []
  trace : Bytes := []
  user : Bytes := []
  address : Bytes := []
  result : Bytes := []
  name : Bytes := []
  message : Bytes := []
  operation : Bytes := []
  path : Bytes := []
  deriving DecidableEq, Repr

namespace LogEntry

/-- The name of the command, empty if there is none. -/
def commandName (e : LogEntry) : Bytes := e.command.headD []

/-- The fields that hold a text, by their keys. -/
def textFields : List (Bytes × (LogEntry → Bytes → LogEntry)) :=
  [("level", fun e v => { e with level := v }),
   ("msg", fun e v => { e with event := v }),
   ("session_id", fun e v => { e with session := v }),
   ("source", fun e v => { e with source := v }),
   ("error", fun e v => { e with error := v }),
   ("context", fun e v => { e with context := v }),
   ("stacktrace", fun e v => { e with trace := v }),
   ("username", fun e v => { e with user := v }),
   ("remote_addr", fun e v => { e with address := v }),
   ("result", fun e v => { e with result := v }),
   ("name", fun e v => { e with name := v }),
   ("message", fun e v => { e with message := v }),
   ("op", fun e v => { e with operation := v }),
   ("path", fun e v => { e with path := v })]

/-- The words of a list over words that were there before: a null leaves the word at its
place.  None if an item is neither null nor a string. -/
def words? : List Bytes → List Json → Option (List Bytes)
  | _, [] => some []
  | old, .null :: items => (words? old.tail items).map (old.headD [] :: ·)
  | old, .string s :: items => (words? old.tail items).map (s :: ·)
  | _, _ :: _ => none

/-- Sets a field that holds a text. -/
def setText (e : LogEntry) (set : LogEntry → Bytes → LogEntry) : Json → Option LogEntry
  | .null => some e
  | .string s => some (set e s)
  | _ => none

/-- Sets the words of the command. -/
def setCommand (e : LogEntry) : Json → Option LogEntry
  | .null => some { e with command := [] }
  | .array items => (words? e.command items).map fun command => { e with command }
  | _ => none

/-- Checks the time, which is not kept. -/
def checkTime (e : LogEntry) : Json → Option LogEntry
  | .null => some e
  | .string s => if Timestamp.isValid s then some e else none
  | _ => none

/-- Sets the field with a key; nothing if the value does not fit. -/
def setField (e : LogEntry) (f : Bytes × Json) : Option LogEntry :=
  match textFields.find? fun t => Json.sameKey t.1 f.1 with
  | some (_, set) => e.setText set f.2
  | none =>
    if Json.sameKey "command" f.1 then e.setCommand f.2
    else if Json.sameKey "time" f.1 then e.checkTime f.2
    else some e

/-- The entry that a value describes. -/
def ofJson? : Json → Option LogEntry
  | .null => some {}
  | .object fields => fields.foldlM setField {}
  | _ => none

end LogEntry

/-- What was read from a log: the entries up to its end or to the first fault. -/
structure LogReading where
  entries : List LogEntry
  /-- No fault was found. -/
  sound : Bool
  deriving DecidableEq, Repr

namespace LogReading

/-- The entries of a log; each step of `fuel` takes one value.  Reading ends where a closing
bracket stands in place of a value. -/
def readFrom : Nat → Bytes → LogReading
  | 0, _ => ⟨[], true⟩
  | fuel + 1, s =>
    match Json.skipBlanks s with
    | [] => ⟨[], true⟩
    | c :: r =>
      if c == Ascii.closeBracket || c == Ascii.closeBrace then ⟨[], true⟩
      else match Json.next? (c :: r) with
        | none => ⟨[], false⟩
        | some (v, rest) =>
          match LogEntry.ofJson? v with
          | none => ⟨[], false⟩
          | some e =>
            let more := readFrom fuel rest
            ⟨e :: more.entries, more.sound⟩

/-- Reads a log. -/
def ofBytes (s : Bytes) : LogReading := readFrom (s.length + 1) s

end LogReading

end ConsoleShell
