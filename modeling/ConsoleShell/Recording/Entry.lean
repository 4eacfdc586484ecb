/-
Recorded sessions.

A recording is a list of entries: bytes that went through one of the streams of a session
at some time, or the end of the session.
-/
import ConsoleShell.Text.Quoted

namespace ConsoleShell

namespace Recording

/-- An entry of a recording. -/
structure Entry where
  /-- Microseconds since the beginning of 1970, a signed number of 64 bits. -/
  time : Int
  /-- The descriptor of the stream. -/
  fd : Int
  data : Bytes := []
  /-- The entry marks the end of the session. -/
  closed : Bool := false
  deriving DecidableEq, Repr

/-- The name of the stream with a descriptor. -/
def streamName (fd : Int) : Bytes :=
  match fd with
  | 0 => "stdin"
  | 1 => "stdout"
  | 2 => "stderr"
  | _ => "unknown"

/-- The bytes that the user of the session was shown by an entry. -/
def Entry.shown (e : Entry) : Bytes := if e.closed || e.fd == 0 then [] else e.data

/-- A file format for recordings. -/
inductive Format where
  /-- Lines of JSON. -/
  | asciicast
  /-- Binary records. -/
  | uml
  deriving DecidableEq, Repr

namespace Format

/-- The format with a given name; an empty name stands for lines of JSON. -/
def ofName? (name : Bytes) : Option Format :=
  if name.isEmpty || name == "asciicast" then some .asciicast
  else if name == "uml" then some .uml
  else none

/-- The ending of the names of files in the format. -/
def extension : Format → Bytes
  | .asciicast => "cast"
  | .uml => "uml"

/-- The diagnostic for a name that denotes no format. -/
def unknownName (name : Bytes) : Bytes := ("unknown recording format " : Bytes) ++ name.quoted

end Format

end Recording

end ConsoleShell
