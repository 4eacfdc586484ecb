/-
The program as a process.

The files below the working directory are read into a store, the program runs on the
store, and what it changed is written back.
-/
import ConsoleShell.CommandLine.Program
import ConsoleShell.Configuration.HostKey
import ConsoleShell.Time.Format

namespace ConsoleShell

namespace Main

/-- A text as an array of bytes. -/
def packed (s : Bytes) : ByteArray := ⟨s.toArray⟩

/-- Adds what is below a directory of the system to a store; each step of `depth` goes one
directory down. -/
def snapshot : Nat → String → FileStore → IO FileStore
  | 0, _, s => return s
  | depth + 1, path, s => do
    let s := s.add path .directory
    let mut s := s
    for e in ← ((← IO.currentDir) / path).readDir do
      let inside := (if path == "/" then "" else path) ++ "/" ++ e.fileName
      if ← e.path.isDir then s ← snapshot depth inside s
      else s := s.add inside (.file (← IO.FS.readBinFile e.path).data.toList)
    return s

/-- Writes back what differs between two stores. -/
def writeBack (old new : FileStore) : IO Unit := do
  for (path, node) in (old.changes new).mergeSort fun a b => a.1.le b.1 do
    match node with
    | some n =>
      if n.isDirectory then IO.FS.createDirAll path.toText
      else IO.FS.writeBinFile path.toText (packed n.data)
    | none => IO.FS.removeFile path.toText

/-- Reads a stream to its end. -/
partial def readAll (s : IO.FS.Stream) (read : Bytes) : IO Bytes := do
  let piece ← s.read 4096
  if piece.isEmpty then return read else readAll s (read ++ piece.data.toList)

/-- The entries of the environment. -/
def environment : IO (List Bytes) := do
  let data ← IO.FS.readBinFile "/proc/self/environ"
  return (Bytes.splitOn 0 data.data.toList).filter fun e => !e.isEmpty

/-- The time of the system. -/
def now : IO Instant := do
  let m ← ((← IO.currentDir) / "/proc/self").metadata
  return ⟨m.modified.sec, m.modified.nsec.toNat⟩

/-- An instant as it is written with events. -/
def stamp (t : Instant) : Bytes :=
  match TimeFormat.format "%Y-%m-%dT%H:%M:%SZ" t with
  | .ok s => s
  | .error _ => []

/-- How many directories below the working directory are looked into. -/
def depth : Nat := 64

/-- How many lines and nested invocations a run may take. -/
def fuel : Nat := 1000000

/-- Runs the program with the given words. -/
def run (words : List String) : IO UInt32 := do
  let words := words.map Bytes.ofString
  let directory := toString (← IO.currentDir)
  let store ← snapshot depth directory { medium := .system, directory }
  let clock ← now
  let input ← if CommandLine.readsInput words then readAll (← IO.getStdin) [] else pure []
  let p : CommandLine.Startup := {
    words, environment := ← environment, input, clock, stamp := stamp clock
    session := Bytes.hexadecimal (← IO.getRandomBytes 16).data.toList
    key := HostKey.text (← IO.getRandomBytes 32).data.toList }
  match CommandLine.execute p fuel store with
  | none => return 1
  | some r =>
    writeBack store r.store
    (← IO.getStdout).write (packed r.output)
    (← IO.getStderr).write (packed (r.log ++ r.errors))
    return if r.failure.isSome then 1 else 0

end Main

end ConsoleShell

/-- Runs the program. -/
def main (words : List String) : IO UInt32 := ConsoleShell.Main.run words
