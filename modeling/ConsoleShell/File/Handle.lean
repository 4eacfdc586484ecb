/-
Open files.

A handle remembers its file, its own position in it and whether it may be written.  Two
handles of one file share the contents and nothing else.
-/
import ConsoleShell.File.Store

namespace ConsoleShell

/-- A failed read or write of a stream. -/
inductive StreamFault where
  /-- Nothing is left to read. -/
  | endOfInput
  | file (fault : FileFault)
  | plain (reason : FileReason)
  deriving DecidableEq, Repr

/-- The failure in words. -/
def StreamFault.message : StreamFault → Bytes
  | .endOfInput => "EOF"
  | .file f => f.message
  | .plain r => r.message

/-- An open file. -/
structure OpenFile where
  /-- The key of the file in its store. -/
  path : Bytes
  position : Nat := 0
  readOnly : Bool := false
  closed : Bool := false
  /-- Every write goes to the end of the file. -/
  appends : Bool := false
  deriving DecidableEq, Repr

namespace OpenFile

/-- Reads at most `count` bytes, and at least one unless the end is reached. -/
def read (f : OpenFile) (s : FileStore) (count : Nat) : Except StreamFault Bytes × OpenFile :=
  let data := s.contents f.path
  if f.closed then (.error (.plain .closedFile), f)
  else if f.position = data.length && 0 < count then
    match s.medium, s.find? f.path with
    | .system, some ⟨true, _⟩ => (.error (.file ⟨"read", f.path, .isDirectory⟩), f)
    | _, _ => (.error .endOfInput, f)
  else if data.length < f.position then (.error (.plain .unexpectedEnd), f)
  else
    let text := (data.drop f.position).take count
    (.ok text, { f with position := f.position + text.length })

/-- The bytes that a reader of the handle still has before it. -/
def remaining (f : OpenFile) (s : FileStore) : Nat := (s.contents f.path).length - f.position

/-- Why nothing can be written through a handle that was opened for reading. -/
def readOnlyReason (s : FileStore) : FileReason :=
  match s.medium with
  | .memory => .readOnlyHandle
  | .system => .badDescriptor

/-- Writes bytes at the position of the handle, or at the end of the file. -/
def write (f : OpenFile) (s : FileStore) (text : Bytes) :
    Except StreamFault Unit × OpenFile × FileStore :=
  if f.closed then (.error (.plain .closedFile), f, s)
  else if f.readOnly then (.error (.file ⟨"write", f.path, readOnlyReason s⟩), f, s)
  else
    let position := if f.appends then (s.contents f.path).length else f.position
    (.ok (), { f with position := position + text.length }, s.write f.path position text)

end OpenFile

end ConsoleShell
