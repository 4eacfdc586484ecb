/-
Recording a session.

A recorder sees the bytes that go through the streams of a session and hands an entry for
each transfer to a sink.  A sink that fails is reported and does not disturb the session.
The end of the session is marked once, and nothing is recorded after it.
-/
import ConsoleShell.File.Fault
import ConsoleShell.Recording.Entry

namespace ConsoleShell

namespace Recording

/-- An entry that was handed to the sink, and why the sink did not take it. -/
structure Attempt where
  entry : Entry
  failure : Option FileReason := none
  deriving DecidableEq, Repr

/-- A sink decides from the number of entries before whether it takes an entry. -/
abbrev SinkRule := Nat → Entry → Option FileReason

/-- A recorder with the entries that it handed to its sink, in order. -/
structure Recorder where
  attempts : List Attempt := []
  closed : Bool := false
  deriving DecidableEq, Repr

namespace Recorder

/-- Hands an entry to the sink unless the recorder is closed. -/
def record (r : Recorder) (sink : SinkRule) (e : Entry) : Recorder :=
  if r.closed then r
  else { r with attempts := r.attempts ++ [⟨e, sink r.attempts.length e⟩] }

/-- Records a transfer of bytes; nothing for no bytes. -/
def observe (r : Recorder) (sink : SinkRule) (time fd : Int) (data : Bytes) : Recorder :=
  if data.isEmpty then r else r.record sink { time, fd, data }

/-- Records the end of the session. -/
def mark (r : Recorder) (sink : SinkRule) (time : Int) : Recorder :=
  r.record sink { time, fd := 0, closed := true }

/-- Closes the recorder. -/
def shut (r : Recorder) : Recorder := { r with closed := true }

/-- Records the end of the session and closes the recorder. -/
def close (r : Recorder) (sink : SinkRule) (time : Int) : Recorder := (r.mark sink time).shut

/-- The entries that the sink took. -/
def entries (r : Recorder) : List Entry :=
  (r.attempts.filter fun a => a.failure.isNone).map Attempt.entry

/-- The line that is logged for an entry that the sink did not take. -/
def Attempt.notice? (a : Attempt) : Option Bytes :=
  a.failure.map fun f => (("Error recording session: " : Bytes) ++ f.message).line

/-- What was logged about entries that the sink did not take. -/
def log (r : Recorder) : Bytes := (r.attempts.filterMap Attempt.notice?).flatten

end Recorder

end Recording

end ConsoleShell
