/-
Directories that files are confined to.

A name is looked up below a base directory.  The path is cleaned, and it must still begin
with the base; otherwise nothing is found, whatever is there.
-/
import ConsoleShell.File.Request

namespace ConsoleShell

namespace Directory

/-- The path of a name below a base directory; none if it leads elsewhere. -/
def path? (base name : Bytes) : Option Bytes :=
  let base := Path.clean base
  let path := Path.clean (Path.join [base, name])
  if path.startsWith base then some path else none

/-- What an operation is called when its name leads elsewhere. -/
def operationName : FileRequest → Bytes
  | .chtimes _ => "chtimes"
  | .chmod _ => "chmod"
  | .chown _ => "chown"
  | .stat _ => "stat"
  | .lstat _ => "lstat"
  | .readlink _ => "readlink"
  | .rename _ _ => "rename"
  | .remove _ => "remove"
  | .removeAll _ => "remove_all"
  | .mkdir _ => "mkdir"
  | .mkdirAll _ => "mkdir"
  | .open _ => "open"
  | .openFile _ _ => "openfile"
  | .create _ => "create"

/-- The operation with its paths below the base, or the first name that leads elsewhere. -/
def confine (base : Bytes) (r : FileRequest) : Except Bytes FileRequest :=
  let below (name : Bytes) : Except Bytes Bytes :=
    match path? base name with
    | some p => .ok p
    | none => .error name
  match r with
  | .chtimes p => (below p).map .chtimes
  | .chmod p => (below p).map .chmod
  | .chown p => (below p).map .chown
  | .stat p => (below p).map .stat
  | .lstat p => (below p).map .lstat
  | .readlink p => (below p).map .readlink
  | .rename a b => do return .rename (← below a) (← below b)
  | .remove p => (below p).map .remove
  | .removeAll p => (below p).map .removeAll
  | .mkdir p => (below p).map .mkdir
  | .mkdirAll p => (below p).map .mkdirAll
  | .open p => (below p).map .open
  | .openFile p flags => (below p).map fun p => .openFile p flags
  | .create p => (below p).map .create

/-- Performs an operation below a base directory. -/
def perform (base : Bytes) (s : FileStore) (r : FileRequest) :
    Except FileFault FileAnswer × FileStore :=
  match confine base r with
  | .ok r => s.perform r
  | .error name => (.error ⟨operationName r, name, .notExist⟩, s)

/-- Reads a whole file below a base directory. -/
def readFile (base : Bytes) (s : FileStore) (name : Bytes) : Except FileFault Bytes :=
  match perform base s (.open name) with
  | (.error f, _) => .error f
  | (.ok (.handle f), _) =>
    match f.read s (f.remaining s + 1) with
    | (.ok data, _) => .ok data
    | (.error (.file fault), _) =>
      -- the system names the path as it was asked for
      .error { fault with path := s.shown ((path? base name).getD name) }
    | (.error _, _) => .ok []
  | (.ok _, _) => .ok []

/-- Writes a whole file below a base directory. -/
def writeFile (base : Bytes) (s : FileStore) (name data : Bytes) : Except FileFault FileStore :=
  match perform base s (.openFile name { writeOnly := true, create := true, truncate := true }) with
  | (.error f, _) => .error f
  | (.ok (.handle f), s) => .ok (f.write s data).2.2
  | (.ok _, s) => .ok s

end Directory

end ConsoleShell
