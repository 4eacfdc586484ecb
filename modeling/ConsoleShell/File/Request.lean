/-
Operations on a file store.

Each operation is a value, so that one can be checked, recorded or refused before it is
performed.
-/
import ConsoleShell.File.Handle

namespace ConsoleShell

/-- The kinds of operation an auditor is asked about. -/
inductive FileOperation where
  | chtimes
  | chmod
  | chown
  | stat
  | rename
  | remove
  | open
  | write
  | mkdir
  | create
  | lstat
  | readlink
  deriving DecidableEq, Repr

namespace FileOperation

/-- The name of the operation. -/
def name : FileOperation → Bytes
  | .chtimes => "chtimes"
  | .chmod => "chmod"
  | .chown => "chown"
  | .stat => "stat"
  | .rename => "rename"
  | .remove => "remove"
  | .open => "open"
  | .write => "write"
  | .mkdir => "mkdir"
  | .create => "create"
  | .lstat => "lstat"
  | .readlink => "readlink"

/-- Every kind of operation. -/
def all : List FileOperation :=
  [.chtimes, .chmod, .chown, .stat, .rename, .remove, .open, .write, .mkdir, .create, .lstat,
    .readlink]

/-- The operation with a given name. -/
def ofName? (name : Bytes) : Option FileOperation := all.find? fun op => op.name == name

/-- The operation changes files. -/
def isWrite : FileOperation → Bool
  | .chtimes | .chmod | .chown | .rename | .remove | .write | .mkdir | .create => true
  | .stat | .open | .lstat | .readlink => false

end FileOperation

/-- An operation with its paths. -/
inductive FileRequest where
  | chtimes (path : Bytes)
  | chmod (path : Bytes)
  | chown (path : Bytes)
  | stat (path : Bytes)
  | lstat (path : Bytes)
  | readlink (path : Bytes)
  | rename (source target : Bytes)
  | remove (path : Bytes)
  | removeAll (path : Bytes)
  | mkdir (path : Bytes)
  | mkdirAll (path : Bytes)
  | open (path : Bytes)
  | openFile (path : Bytes) (flags : OpenFlags)
  | create (path : Bytes)
  deriving DecidableEq, Repr

/-- The operation with a given name on a path; `target` is where a path is moved to, `flags`
say how a file is opened. -/
def FileRequest.ofName? (name : String) (path target : Bytes) (flags : OpenFlags) :
    Option FileRequest :=
  match name with
  | "chtimes" => some (.chtimes path)
  | "chmod" => some (.chmod path)
  | "chown" => some (.chown path)
  | "stat" => some (.stat path)
  | "lstat" => some (.lstat path)
  | "readlink" => some (.readlink path)
  | "rename" => some (.rename path target)
  | "remove" => some (.remove path)
  | "remove_all" => some (.removeAll path)
  | "mkdir" => some (.mkdir path)
  | "mkdir_all" => some (.mkdirAll path)
  | "open" => some (.open path)
  | "open_file" => some (.openFile path flags)
  | "create" => some (.create path)
  | _ => none

/-- What an operation that succeeds answers, for files with nodes `ν` and handles `φ`. -/
inductive FileAnswer (ν : Type := Node) (φ : Type := OpenFile) where
  | done
  /-- What is at a path, with the path's last element. -/
  | info (name : Bytes) (node : ν)
  /-- What is at a path, and whether that is a link itself and not what a link leads to. -/
  | linkInfo (name : Bytes) (node : ν) (itself : Bool)
  | link (target : Bytes)
  | handle (file : φ)
  deriving DecidableEq, Repr

namespace FileStore

/-- The outcome of an operation that changes the store. -/
def update (s : FileStore) :
    Except FileFault FileStore → Except FileFault FileAnswer × FileStore
  | .ok t => (.ok .done, t)
  | .error f => (.error f, s)

/-- The outcome of an operation that only looks at the store. -/
def check (s : FileStore) : Except FileFault Unit → Except FileFault FileAnswer × FileStore
  | .ok () => (.ok .done, s)
  | .error f => (.error f, s)

/-- Performs an operation. -/
def perform (s : FileStore) : FileRequest → Except FileFault FileAnswer × FileStore
  | .chtimes p => s.check (s.touch "chtimes" p)
  | .chmod p => s.check (s.touch "chmod" p)
  | .chown p => s.check (s.touch "chown" p)
  | .stat p => ((s.stat p).map (.info (Path.base (s.key p))), s)
  | .lstat p => ((s.stat p).map fun n => .linkInfo (Path.base (s.key p)) n false, s)
  | .readlink p =>
    match s.links with
    | none => (.error ⟨"readlink", p, .noReadlink⟩, s)
    | some links =>
      match links.find? (·.1 == p) with
      | some (_, target) => (.ok (.link target), s)
      | none => (.error ⟨"readlink", p, .invalidArgument⟩, s)
  | .rename a b => s.update (s.rename a b)
  | .remove p => s.update (s.remove p)
  | .removeAll p => (.ok .done, s.removeAll p)
  | .mkdir p => s.update (s.makeDirectory p)
  | .mkdirAll p => s.update (s.makeDirectories p)
  | .open p =>
    match s.entry p with
    | .ok _ => (.ok (.handle { path := s.key p, readOnly := true }), s)
    | .error f => (.error f, s)
  | .openFile p flags =>
    match s.openFile p flags with
    | .ok (t, position) =>
      let appends := s.medium == .system && flags.append
      let readOnly := flags.isReadOnly s.medium
      (.ok (.handle { path := s.key p, position, readOnly, appends }), t)
    | .error f => (.error f, s)
  | .create p =>
    match s.create p with
    | .ok t => (.ok (.handle { path := s.key p }), t)
    | .error f => (.error f, s)

end FileStore

end ConsoleShell
