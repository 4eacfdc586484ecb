/-
File stores.

A store maps clean paths to files and directories.  Creating an entry creates the
directories above it, and a file that something is created below turns into a directory.
A store on the medium of the operating system differs: there the directory of a new entry
must exist, and the reasons of failures are worded by the system.
-/
import ConsoleShell.File.Fault
import ConsoleShell.File.Path

namespace ConsoleShell

/-- A file with its contents, or a directory. -/
structure Node where
  isDirectory : Bool
  data : Bytes
  deriving DecidableEq, Repr

/-- An empty directory. -/
def Node.directory : Node := ⟨true, []⟩

/-- A file. -/
def Node.file (data : Bytes) : Node := ⟨false, data⟩

/-- How entries are created and failures are worded. -/
inductive Medium where
  /-- Directories appear as they are needed. -/
  | memory
  /-- A directory must exist before its entries. -/
  | system
  deriving DecidableEq, Repr

/-- The files and directories by clean path, the latest entry for a path first. -/
structure FileStore where
  medium : Medium := .memory
  /-- Where the system looks for relative paths. -/
  directory : Bytes := [Ascii.slash]
  entries : List (Bytes × Node) := [([Ascii.slash], Node.directory)]
  /-- Symbolic links with their targets, if the store has any notion of them. -/
  links : Option (List (Bytes × Bytes)) := none
  deriving DecidableEq, Repr

/-- How a file is opened. -/
structure OpenFlags where
  writeOnly : Bool := false
  readWrite : Bool := false
  append : Bool := false
  create : Bool := false
  truncate : Bool := false
  exclusive : Bool := false
  deriving DecidableEq, Repr

/-- A file that is opened so can only be read.  In memory any flag makes a handle that can be
written; on the system that takes one of the two flags for writing. -/
def OpenFlags.isReadOnly (medium : Medium) (f : OpenFlags) : Bool :=
  match medium with
  | .memory => f == {}
  | .system => !f.writeOnly && !f.readWrite

/-- The flags with the given names. -/
def OpenFlags.ofNames (names : List Bytes) : OpenFlags where
  writeOnly := names.contains "wronly"
  readWrite := names.contains "rdwr"
  append := names.contains "append"
  create := names.contains "create"
  truncate := names.contains "trunc"
  exclusive := names.contains "excl"

namespace FileStore

/-- A clean path, the root for the directories `.` and `..` that have no meaning in memory. -/
def normalize (p : Bytes) : Bytes :=
  let c := Path.clean p
  if c == [Ascii.dot] || c == [Ascii.dot, Ascii.dot] then [Ascii.slash] else c

/-- The path under which an entry is kept. -/
def key (s : FileStore) (p : Bytes) : Bytes :=
  match s.medium with
  | .memory => normalize p
  | .system => Path.resolve s.directory p

/-- The entry at a path. -/
def find? (s : FileStore) (p : Bytes) : Option Node :=
  (s.entries.find? (·.1 == s.key p)).map (·.2)

/-- Sets the entry at a path that is already a key. -/
def set (s : FileStore) (k : Bytes) (n : Node) : FileStore :=
  { s with entries := (k, n) :: s.entries.filter (fun e => e.1 != k) }

/-- Removes the entry at a path that is already a key. -/
def erase (s : FileStore) (k : Bytes) : FileStore :=
  { s with entries := s.entries.filter (fun e => e.1 != k) }

/-- The directories above a key, the nearest first; each step of `fuel` goes one up. -/
def parentsUpTo : Nat → Bytes → List Bytes
  | 0, _ => []
  | fuel + 1, k =>
    let d := normalize (Path.directory k)
    if d == k then [] else d :: parentsUpTo fuel d

/-- The directories above a key, the nearest first. -/
def parents (k : Bytes) : List Bytes := parentsUpTo (k.length + 1) k

/-- Makes sure that the directory of a key is one, and is there.  The directories above it
matter only if it is new; each step of `fuel` goes one up. -/
def ensureParent (s : FileStore) : Nat → Bytes → FileStore
  | 0, _ => s
  | fuel + 1, k =>
    let d := normalize (Path.directory k)
    if d == k then s
    else match s.find? d with
      | some n => if n.isDirectory then s else s.set d { n with isDirectory := true }
      | none => (s.ensureParent fuel d).set d Node.directory

/-- Adds an entry with the directories above it. -/
def add (s : FileStore) (k : Bytes) (n : Node) : FileStore :=
  (s.ensureParent (k.length + 1) k).set k n

/-- Why no entry can be created at a key, if it cannot. -/
def creationFault? (s : FileStore) (k : Bytes) : Option FileReason :=
  match s.medium with
  | .memory => none
  | .system =>
    match s.find? (Path.directory k) with
    | some n => if n.isDirectory then none else some .notDirectory
    | none =>
      if (parents k).any (fun d => (s.find? d).any (fun n => !n.isDirectory)) then
        some .notDirectory
      else some .noSuchFile

/-- Why nothing is found at a path. -/
def absence (s : FileStore) (p : Bytes) : FileReason :=
  match s.medium with
  | .memory => .notExist
  | .system =>
    if (parents (s.key p)).any (fun d => (s.find? d).any (fun n => !n.isDirectory)) then
      .notDirectory
    else .noSuchFile

/-- The name that a failed operation reports: the key, or on the system the name as given. -/
def shown (s : FileStore) (p : Bytes) : Bytes :=
  match s.medium with
  | .memory => normalize p
  | .system => p

/-- A failure of an operation on a path. -/
def fault (s : FileStore) (operation : String) (p : Bytes) (reason : FileReason) : FileFault :=
  ⟨operation, s.shown p, reason⟩

/-- The entry at a path, or a failure of `open`. -/
def entry (s : FileStore) (p : Bytes) : Except FileFault Node :=
  match s.find? p with
  | some n => .ok n
  | none => .error (s.fault "open" p (s.absence p))

/-- What is at a path. -/
def stat (s : FileStore) (p : Bytes) : Except FileFault Node :=
  match s.medium, s.find? p with
  | _, some n => .ok n
  | .memory, none => .error (s.fault "open" p .notExist)
  | .system, none => .error (s.fault "stat" p (s.absence p))

/-- Opens a path; on success the store, in which the file may have been created or emptied,
and the position at which the handle starts. -/
def openFile (s : FileStore) (p : Bytes) (flags : OpenFlags) : Except FileFault (FileStore × Nat) :=
  let k := s.key p
  let start (s : FileStore) (n : Node) : FileStore × Nat :=
    let position := if flags.append then n.data.length else 0
    if flags.truncate && (flags.writeOnly || flags.readWrite) then
      (s.set k { n with data := [] }, position)
    else (s, position)
  match s.find? p with
  | some n =>
    if flags.exclusive && (s.medium == .memory || flags.create) then
      -- the failure names the path as it was given
      .error ⟨"open", p, .alreadyExists⟩
    else if s.medium == .system && n.isDirectory && (flags.writeOnly || flags.readWrite) then
      .error (s.fault "open" p .isDirectory)
    else .ok (start s n)
  | none =>
    if flags.create then
      match s.creationFault? k with
      | some reason => .error (s.fault "open" p reason)
      | none => .ok (start (s.add k (.file [])) (.file []))
    else .error (s.fault "open" p (s.absence p))

/-- Creates an empty file in place of what is there. -/
def create (s : FileStore) (p : Bytes) : Except FileFault FileStore :=
  match s.medium with
  | .memory => .ok (s.add (s.key p) (.file []))
  | .system =>
    (s.openFile p { readWrite := true, create := true, truncate := true }).map fun (s, _) => s

/-- Creates a directory. -/
def makeDirectory (s : FileStore) (p : Bytes) : Except FileFault FileStore :=
  match s.find? p with
  | some _ => .error (s.fault "mkdir" p .alreadyExists)
  | none =>
    match s.creationFault? (s.key p) with
    | some reason => .error (s.fault "mkdir" p reason)
    | none => .ok (s.add (s.key p) .directory)

/-- Creates a directory on the system with those above it, unless it is there; each step of
`fuel` takes one element off the path. -/
def makePath (s : FileStore) : Nat → Bytes → Except FileFault FileStore
  | 0, _ => .ok s
  | _, [] => .error (s.fault "mkdir" [] .noSuchFile)
  | fuel + 1, p =>
    match s.find? p with
    | some n => if n.isDirectory then .ok s else .error (s.fault "mkdir" p .notDirectory)
    | none =>
      let above := (p.reverse.dropWhile (· == Ascii.slash)).dropWhile (· != Ascii.slash)
      match above.tail with
      | [] => s.makeDirectory p
      | parent => do (← s.makePath fuel parent.reverse).makeDirectory p

/-- Creates a directory with those above it.  In memory anything that is there will do. -/
def makeDirectories (s : FileStore) (p : Bytes) : Except FileFault FileStore :=
  match s.medium with
  | .memory =>
    match s.makeDirectory p with
    | .ok s => .ok s
    | .error _ => .ok s
  | .system => s.makePath (p.length + 1) p

/-- Removes one entry. -/
def remove (s : FileStore) (p : Bytes) : Except FileFault FileStore :=
  match s.find? p with
  | some _ => .ok (s.erase (s.key p))
  | none => .error (s.fault "remove" p .notExist)

/-- Removes every entry whose path begins with the given text. -/
def removeAll (s : FileStore) (p : Bytes) : FileStore :=
  { s with entries := s.entries.filter fun e => !(e.1.startsWith (s.key p)) }

/-- Moves one entry. -/
def rename (s : FileStore) (source target : Bytes) : Except FileFault FileStore :=
  if s.key source == s.key target then .ok s
  else match s.find? source with
    | some n => .ok ((s.erase (s.key source)).add (s.key target) n)
    | none => .error (s.fault "rename" source .notExist)

/-- Changes an attribute that is not kept; the entry must exist. -/
def touch (s : FileStore) (operation : String) (p : Bytes) : Except FileFault Unit :=
  match s.find? p with
  | some _ => .ok ()
  | none => .error (s.fault operation p .notExist)

/-- The entries of a directory with their names, in the order of names. -/
def children (s : FileStore) (p : Bytes) : List (Bytes × Node) :=
  let k := s.key p
  let inside := s.entries.filter fun e => e.1 != k && normalize (Path.directory e.1) == k
  (inside.map fun e => (Path.base e.1, e.2)).mergeSort fun a b => a.1.le b.1

/-- Contents with bytes written at a position; a gap before the position is filled with zeros. -/
def overwrite (data : Bytes) (position : Nat) (text : Bytes) : Bytes :=
  data.take position ++ Bytes.replicate (position - data.length) 0 ++ text ++
    data.drop (position + text.length)

/-- Writes bytes at a position of a file. -/
def write (s : FileStore) (k : Bytes) (position : Nat) (text : Bytes) : FileStore :=
  match s.find? k with
  | some n => s.set k { n with data := overwrite n.data position text }
  | none => s

/-- The paths at which another store differs, with what is there in the other store. -/
def changes (s t : FileStore) : List (Bytes × Option Node) :=
  let changed := t.entries.filter fun (k, n) => s.find? k != some n
  let removed := s.entries.filter fun (k, _) => (t.find? k).isNone
  changed.map (fun (k, n) => (k, some n)) ++ removed.map fun (k, _) => (k, none)

/-- The contents of a file, empty if it is not there. -/
def contents (s : FileStore) (k : Bytes) : Bytes := ((s.find? k).map Node.data).getD []

end FileStore

end ConsoleShell
