/-
Streams for trying out.

A sample stream is known by its name, which tells what can be done with it: with an `r` at
its beginning it can be read and holds a text about itself; with a `w` it can be read and
written and is empty at first.  A name that is used twice denotes one stream.
-/
import ConsoleShell.Shell.Streams

namespace ConsoleShell

/-- Three standard streams by name, empty for one that leads nowhere, and what can be read
from the streams that have been used. -/
structure SampleStreams where
  names : Streams Bytes
  contents : List (Bytes × Bytes) := []
  deriving DecidableEq, Repr

namespace SampleStreams

/-- A stream with this name can be written. -/
def isWritable (name : Bytes) : Bool := name.startsWith "w"

/-- A stream with this name can be read. -/
def isReadable (name : Bytes) : Bool := name.startsWith "r" || isWritable name

/-- Three streams. -/
def standard : SampleStreams := { names := ⟨"rin", "wout", "werr"⟩ }

/-- Three streams that lead nowhere. -/
def null : SampleStreams := { names := ⟨[], [], []⟩ }

/-- Puts a stream in place of one, whose name is returned. -/
def exchange (s : SampleStreams) (fd : Int) (name : Bytes) : Option Bytes × SampleStreams :=
  let (old, names) := s.names.replace isReadable isWritable fd name
  (old, { s with names })

/-- What can be read from a stream. -/
def content (s : SampleStreams) (name : Bytes) : Bytes :=
  match s.contents.find? fun c => c.1 == name with
  | some c => c.2
  | none => if isWritable name then [] else ("data of " : Bytes) ++ name

/-- Changes what can be read from a stream. -/
def setContent (s : SampleStreams) (name data : Bytes) : SampleStreams :=
  { s with contents := (name, data) :: s.contents.filter fun c => c.1 != name }

/-- Writes to a stream. -/
def write (s : SampleStreams) (fd : Int) (data : Bytes) : SampleStreams :=
  match s.names.get? fd with
  | some name => if isWritable name then s.setContent name (s.content name ++ data) else s
  | none => s

/-- Reads the input to its end; none if it leads nowhere. -/
def read (s : SampleStreams) : Option Bytes × SampleStreams :=
  let name := s.names.input
  if name.isEmpty then (none, s) else (some (s.content name), s.setContent name [])

end SampleStreams

end ConsoleShell
