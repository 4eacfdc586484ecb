/-
Streams that are recorded.

Whoever reads or writes a stream of a session goes through the recorder.  The call is passed on
to the stream itself, the bytes that went through are recorded, and the caller is given the
answer of the stream, whatever becomes of the recording.
-/
import ConsoleShell.Recording.Recorder
import ConsoleShell.Shell.Streams

namespace ConsoleShell

namespace Recording

/-! ### Streams and calls -/

/-- What a stream gives to a reader with room for some bytes.  It may fail and give bytes
nevertheless. -/
structure ReadReply (ε : Type) (room : Nat) where
  data : Bytes
  failure : Option ε := none
  length_le : data.length ≤ room

/-- How many bytes a stream takes from a writer, the first ones.  It may fail after some. -/
structure WriteReply (ε : Type) (data : Bytes) where
  count : Nat
  failure : Option ε := none
  count_le : count ≤ data.length

/-- The streams of a session, by what they answer in each of their states. -/
structure Channel (σ ε : Type) where
  read : σ → (room : Nat) → ReadReply ε room × σ
  write : σ → Output → (data : Bytes) → WriteReply ε data × σ

/-- A call, with its time. -/
inductive StreamCall where
  /-- Reads the input into a buffer with room for some bytes. -/
  | read (time : Int) (room : Nat)
  | write (time : Int) (output : Output) (data : Bytes)
  /-- Closes one of the streams. -/
  | release (fd : Nat)
  /-- Closes the recorder. -/
  | close (time : Int)
  deriving DecidableEq, Repr

/-- What a caller is told. -/
inductive StreamAnswer (ε : Type) where
  | given (data : Bytes) (failure : Option ε)
  | taken (count : Nat) (failure : Option ε)
  | closed
  deriving DecidableEq, Repr

variable {σ ε : Type}

/-- Answers a call without a recorder.  The session owns its streams: nobody else closes them. -/
def Channel.answer (ch : Channel σ ε) (s : σ) : StreamCall → StreamAnswer ε × σ
  | .read _ room =>
    let (reply, s) := ch.read s room
    (.given reply.data reply.failure, s)
  | .write _ o data =>
    let (reply, s) := ch.write s o data
    (.taken reply.count reply.failure, s)
  | .release _ => (.closed, s)
  | .close _ => (.closed, s)

/-- Answers calls one after the other without a recorder. -/
def Channel.answerAll (ch : Channel σ ε) (s : σ) : List StreamCall → List (StreamAnswer ε) × σ
  | [] => ([], s)
  | c :: cs =>
    let (a, s) := ch.answer s c
    let (as, s) := ch.answerAll s cs
    (a :: as, s)

/-! ### Recorded streams -/

/-- The streams of a session with their recorder. -/
structure Tee (σ : Type) where
  streams : σ
  recorder : Recorder := {}
  deriving DecidableEq, Repr

namespace Tee

/-- Answers a call and records what went through. -/
def call (ch : Channel σ ε) (sink : SinkRule) (t : Tee σ) : StreamCall → StreamAnswer ε × Tee σ
  | .read time room =>
    let (reply, streams) := ch.read t.streams room
    (.given reply.data reply.failure, ⟨streams, t.recorder.observe sink time 0 reply.data⟩)
  | .write time o data =>
    let (reply, streams) := ch.write t.streams o data
    (.taken reply.count reply.failure,
      ⟨streams, t.recorder.observe sink time o.fd (data.take reply.count)⟩)
  | .release _ => (.closed, t)
  | .close time => (.closed, { t with recorder := t.recorder.close sink time })

/-- Answers calls one after the other. -/
def callAll (ch : Channel σ ε) (sink : SinkRule) (t : Tee σ) :
    List StreamCall → List (StreamAnswer ε) × Tee σ
  | [] => ([], t)
  | c :: cs =>
    let (a, t) := t.call ch sink c
    let (as, t) := t.callAll ch sink cs
    (a :: as, t)

end Tee

/-! ### Streams in memory -/

/-- The end of an input. -/
inductive EndOfInput where
  | reached
  deriving DecidableEq, Repr

/-- Streams whose input is a text, and whose output goes somewhere that takes everything. -/
def Channel.memory : Channel Bytes EndOfInput where
  read input room := (⟨input.take room, if input.isEmpty then some .reached else none,
    List.length_take_le room input⟩, input.drop room)
  write input _ data := (⟨data.length, none, Nat.le_refl data.length⟩, input)

end Recording

end ConsoleShell
