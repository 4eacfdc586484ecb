/-
Writing and reading recordings.

A recording is written piece by piece to a tape, which may have room for a limited number
of bytes.  A piece that does not fit is not written at all, and the rest of its entry is
given up.
-/
import ConsoleShell.File.Fault
import ConsoleShell.Recording.Asciicast
import ConsoleShell.Recording.Uml

namespace ConsoleShell

namespace Recording

/-- Something that bytes are written to. -/
structure Tape where
  bytes : Bytes := []
  /-- How many bytes there is room for; without limit if there is none. -/
  capacity : Option Nat := none
  deriving DecidableEq, Repr

namespace Tape

/-- There is room for a piece. -/
def hasRoom (t : Tape) (piece : Bytes) : Bool :=
  t.capacity.all fun n => t.bytes.length + piece.length ≤ n

/-- Writes pieces up to the first that does not fit; whether all of them were written. -/
def writeAll (t : Tape) : List Bytes → Bool × Tape
  | [] => (true, t)
  | p :: ps => if t.hasRoom p then { t with bytes := t.bytes ++ p }.writeAll ps else (false, t)

end Tape

/-- The pieces in which an entry is written, given the time of the first entry if it is not
the first one itself. -/
def Format.pieces (format : Format) (start : Option Int) (e : Entry) : List Bytes :=
  match format with
  | .asciicast =>
    let head := if start.isNone then [Asciicast.header e.time] else []
    head ++ if e.closed then [] else [Asciicast.event (start.getD e.time) e]
  | .uml => Uml.pieces e

/-- A recording that is being written. -/
structure Sink where
  format : Format
  /-- The time of the first entry. -/
  start : Option Int := none
  tape : Tape := {}
  deriving DecidableEq, Repr

namespace Sink

/-- Writes an entry; whether all of it was written. -/
def put (s : Sink) (e : Entry) : Bool × Sink :=
  let (ok, tape) := s.tape.writeAll (s.format.pieces s.start e)
  (ok, { s with start := some (s.start.getD e.time), tape })

end Sink

/-- The bytes of a recording with the given entries. -/
def Format.write (format : Format) (es : List Entry) : Bytes :=
  (es.foldl (fun s e => (s.put e).2) ({ format } : Sink)).tape.bytes

/-- The entries of a recording up to the first fault. -/
def Format.read (format : Format) (s : Bytes) : List Entry × Option Asciicast.Fault :=
  match format with
  | .asciicast => Asciicast.read s
  | .uml => (Uml.read s, none)

/-! ### Playback -/

/-- What receives the entries of a recording that is played. -/
inductive Receiver where
  /-- The bytes that the user of the session was shown. -/
  | display (tape : Tape)
  /-- Another recording. -/
  | sink (sink : Sink)
  deriving DecidableEq, Repr

namespace Receiver

/-- Passes an entry on; whether it was taken. -/
def put (r : Receiver) (e : Entry) : Bool × Receiver :=
  match r with
  | .display tape =>
    let (ok, tape) := tape.writeAll [e.shown]
    (ok, .display tape)
  | .sink s =>
    let (ok, s) := s.put e
    (ok, .sink s)

/-- What has been written. -/
def bytes : Receiver → Bytes
  | .display tape => tape.bytes
  | .sink s => s.tape.bytes

/-- Passes entries on up to the first that is not taken: those that were passed on, and
whether all were taken. -/
def putAll (r : Receiver) : List Entry → List Entry × Bool × Receiver
  | [] => ([], true, r)
  | e :: es =>
    match r.put e with
    | (false, r) => ([e], false, r)
    | (true, r) =>
      let (passed, ok, r) := putAll r es
      (e :: passed, ok, r)

end Receiver

/-- Why a recording could not be played to its end. -/
inductive PlayFault where
  /-- The receiver is full. -/
  | full
  /-- A line of the recording is no event. -/
  | line (fault : Asciicast.Fault)

/-- Plays a recording: the entries that were passed on, and why not all of them were. -/
def play (format : Format) (s : Bytes) (r : Receiver) :
    List Entry × Option PlayFault × Receiver :=
  let (es, fault) := format.read s
  match r.putAll es with
  | (passed, false, r) => (passed, some .full, r)
  | (passed, true, r) => (passed, fault.map .line, r)

/-! ### Playback in real time -/

/-- A playback in real time. -/
structure Playback where
  /-- The longest pause in microseconds; there are no pauses unless it is positive. -/
  longest : Int
  /-- The context of the playback has been cancelled, so that no pause is possible. -/
  cancelled : Bool
  /-- The time of the entry before. -/
  previous : Option Int := none
  /-- How many entries have been passed on. -/
  passed : Nat := 0
  /-- How many entries the receiver takes; without limit if there is none. -/
  capacity : Option Nat := none
  shown : Bytes := []
  deriving DecidableEq, Repr

namespace Playback

/-- Why an entry was not shown. -/
inductive Fault where
  | cancelled
  | full
  deriving DecidableEq, Repr

/-- The fault in words. -/
def Fault.message : Fault → Bytes
  | .cancelled => "context canceled"
  | .full => FileReason.diskFull.message

/-- There is a pause before an entry.  Times are signed numbers of 64 bits. -/
def pauses (p : Playback) (e : Entry) : Bool :=
  decide (0 < p.longest ∧ 0 < (e.time - p.previous.getD e.time).bmod (2 ^ 64))

/-- Plays an entry after the pause before it; what went wrong. -/
def play (p : Playback) (e : Entry) : Option Fault × Playback :=
  let q := { p with previous := some e.time }
  if p.cancelled && p.pauses e then (some .cancelled, q)
  else if p.capacity.any fun n => n ≤ p.passed then (some .full, { q with passed := p.passed + 1 })
  else (none, { q with passed := p.passed + 1, shown := p.shown ++ e.shown })

/-- Plays entries; what went wrong with each of them. -/
def playAll (p : Playback) : List Entry → List (Option Fault) × Playback
  | [] => ([], p)
  | e :: es =>
    let (fault, p) := p.play e
    let (faults, p) := p.playAll es
    (fault :: faults, p)

end Playback

end Recording

end ConsoleShell
