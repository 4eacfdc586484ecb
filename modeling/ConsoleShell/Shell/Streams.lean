/-
The three standard streams of a shell.
-/
import ConsoleShell.Text.Bytes

namespace ConsoleShell

/-- The streams of descriptors 0, 1 and 2. -/
structure Streams (α : Type) where
  input : α
  output : α
  error : α
  deriving DecidableEq, Repr

namespace Streams

variable {α : Type}

/-- The stream of a descriptor. -/
def get? (s : Streams α) : Int → Option α
  | 0 => some s.input
  | 1 => some s.output
  | 2 => some s.error
  | _ => none

/-- Puts a stream in place of the one of a descriptor. -/
def set (s : Streams α) (fd : Int) (x : α) : Streams α :=
  match fd with
  | 0 => { s with input := x }
  | 1 => { s with output := x }
  | 2 => { s with error := x }
  | _ => s

/-- Replaces the stream of a descriptor and returns the previous one.  Nothing is replaced
for other descriptors, for a stream that cannot be read as input and for one that cannot be
written as output. -/
def replace (canRead canWrite : α → Bool) (s : Streams α) (fd : Int) (x : α) :
    Option α × Streams α :=
  match s.get? fd with
  | none => (none, s)
  | some old => if (if fd = 0 then canRead x else canWrite x) then (some old, s.set fd x) else (none, s)

end Streams

/-- One of the two streams that are written. -/
inductive Output where
  | standard
  | error
  deriving DecidableEq, Repr

/-- The descriptor of a stream that is written. -/
def Output.fd : Output → Nat
  | .standard => 1
  | .error => 2

/-- Where a stream of a shell leads. -/
inductive Endpoint where
  /-- The stream of the session with the same descriptor. -/
  | session
  /-- Nowhere: reading fails, and what is written is dropped. -/
  | null
  /-- An open file, by its number. -/
  | file (handle : Nat)
  deriving DecidableEq, Repr

/-- The endpoint of a stream that is written. -/
def Streams.written (s : Streams Endpoint) : Output → Endpoint
  | .standard => s.output
  | .error => s.error

end ConsoleShell
