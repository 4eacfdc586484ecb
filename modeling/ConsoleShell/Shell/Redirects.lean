/-
The redirections of a line at work.

The targets of all redirections are opened first, in the order of their descriptors; if
one cannot be opened, those that are open are closed again.  Then the streams of
descriptors 0, 1 and 2 are led to their targets until the line is done.
-/
import ConsoleShell.Shell.Machine
import ConsoleShell.Text.Quoted

namespace ConsoleShell

/-- A state with files: a path can be opened, which gives the number of an open file, and open
files can be closed. -/
class Files (σ : Type) where
  /-- Opens a path. -/
  openPath : Bytes → OpenFlags → σ → Except FileFault Nat × σ
  /-- Closes an open file; the failure if closing fails. -/
  closeFile : Nat → σ → Option FileFault × σ

instance {σ : Type} [FileBase σ] : Files (Machine σ) where
  openPath path flags m := m.openFile (.openFile path flags)
  closeFile h m := m.closeHandle h

@[simp] theorem Machine.openPath_eq {σ : Type} [FileBase σ] (path : Bytes) (flags : OpenFlags)
    (m : Machine σ) :
    Files.openPath path flags m = m.openFile (.openFile path flags) := rfl

@[simp] theorem Machine.closeFile_eq {σ : Type} [FileBase σ] (h : Nat) (m : Machine σ) :
    Files.closeFile h m = m.closeHandle h := rfl

/-- How a target is opened. -/
def Mode.flags : Mode → OpenFlags
  | .read => {}
  | .write => { writeOnly := true, create := true, truncate := true }
  | .append => { writeOnly := true, create := true, append := true }

/-- The word for the mode with a given number, which may denote none. -/
def Mode.describe (code : Int) : Bytes :=
  match code with
  | 0 => Mode.read.symbol
  | 1 => Mode.write.symbol
  | 2 => Mode.append.symbol
  | n => ("Mode(" : Bytes) ++ Bytes.ofInt n ++ ")"

/-- A target that cannot be opened. -/
structure RedirectionFault where
  name : Bytes
  reason : FileReason
  deriving DecidableEq, Repr

/-- The diagnostic for a target that cannot be opened. -/
def RedirectionFault.message (f : RedirectionFault) : Bytes :=
  ("Can't open " : Bytes) ++ f.name.quoted ++ ": " ++ f.reason.message ++ "."

/-- A target that cannot be closed. -/
structure ClosingFault where
  name : Bytes
  reason : FileReason
  deriving DecidableEq, Repr

/-- The diagnostic for a target that cannot be closed. -/
def ClosingFault.message (f : ClosingFault) : Bytes :=
  ("Error closing " : Bytes) ++ f.name.quoted ++ ": " ++ f.reason.message

/-- The redirections of a line by increasing descriptor. -/
abbrev Redirects := List Attachment

namespace Redirects

/-- Redirections of which nothing is open. -/
def ofList (rs : List Redirection) : Redirects := rs.map fun r => { redirection := r }

/-- The redirected descriptors. -/
def fds (rs : Redirects) : List Nat := rs.map fun a => a.redirection.fd

/-- The redirection of the input. -/
def input? (rs : Redirects) : Option Redirection :=
  (List.find? (fun a => a.redirection.fd == 0) rs).map Attachment.redirection

/-- Without the redirection of a descriptor. -/
def without (rs : Redirects) (fd : Int) : Redirects :=
  List.filter (fun a => (a.redirection.fd : Int) != fd) rs

/-- The number of the open target of a descriptor. -/
def handle? (rs : Redirects) (fd : Int) : Option Nat :=
  (List.find? (fun a => (a.redirection.fd : Int) == fd) rs).bind Attachment.handle

section

variable {σ : Type} [Files σ]

/-- Closes every open target, collecting the failures. -/
def close : Redirects → σ → List ClosingFault × Redirects × σ
  | [], m => ([], [], m)
  | a :: rs, m =>
    match a.handle with
    | none =>
      let (faults, rs, m) := close rs m
      (faults, a :: rs, m)
    | some h =>
      let (fault, m) := Files.closeFile h m
      let (faults, rs, m) := close rs m
      let first := (fault.map fun f => (⟨a.redirection.name, f.reason⟩ : ClosingFault)).toList
      (first ++ faults, { a with handle := none } :: rs, m)

/-- Opens the target of one redirection. -/
def openTarget (resolve : Bytes → Bytes) (a : Attachment) (m : σ) :
    Except RedirectionFault Attachment × σ :=
  let name := a.redirection.name
  if a.handle.isSome then (.ok a, m)
  else if name.isEmpty then (.error ⟨name, .notExist⟩, m)
  else match Files.openPath (resolve name) a.redirection.mode.flags m with
    | (.ok h, m) => (.ok { a with handle := some h }, m)
    | (.error f, m) => (.error ⟨name, f.reason⟩, m)

/-- Opens targets in order up to the first that fails. -/
def openTargets (resolve : Bytes → Bytes) :
    Redirects → σ → Option RedirectionFault × Redirects × σ
  | [], m => (none, [], m)
  | a :: rs, m =>
    match openTarget resolve a m with
    | (.error f, m) => (some f, a :: rs, m)
    | (.ok a, m) =>
      let (fault, rs, m) := openTargets resolve rs m
      (fault, a :: rs, m)

/-- Opens every target; if one fails, those that are open are closed. -/
def openAll (resolve : Bytes → Bytes) (rs : Redirects) (m : σ) :
    Option RedirectionFault × Redirects × σ :=
  match openTargets resolve rs m with
  | (none, rs, m) => (none, rs, m)
  | (some f, rs, m) =>
    let (_, rs, m) := close rs m
    (some f, rs, m)

end

/-- Leads the streams to the open targets and remembers where they led before. -/
def activate : Redirects → Streams Endpoint → Redirects × Streams Endpoint
  | [], s => ([], s)
  | a :: rs, s =>
    let fd := a.redirection.fd
    match a.handle, a.saved, s.get? fd with
    | some h, none, some old =>
      let (rs, s) := activate rs (s.set fd (.file h))
      ({ a with saved := some old } :: rs, s)
    | _, _, _ =>
      let (rs, s) := activate rs s
      (a :: rs, s)

/-- Leads the streams back to where they led before. -/
def restore : Redirects → Streams Endpoint → Redirects × Streams Endpoint
  | [], s => ([], s)
  | a :: rs, s =>
    match a.saved with
    | some old =>
      let (rs, s) := restore rs (s.set a.redirection.fd old)
      ({ a with saved := none } :: rs, s)
    | none =>
      let (rs, s) := restore rs s
      (a :: rs, s)

/-- Leads the streams of the shell to the open targets. -/
def attach {σ : Type} (rs : Redirects) (m : Machine σ) : Redirects × Machine σ :=
  let (rs, streams) := activate rs m.shell.streams
  (rs, { m with shell := { m.shell with streams } })

/-- Leads the streams of the shell back and closes the targets. -/
def detach {σ : Type} [FileBase σ] (rs : Redirects) (m : Machine σ) :
    List ClosingFault × Redirects × Machine σ :=
  let (rs, streams) := restore rs m.shell.streams
  close rs { m with shell := { m.shell with streams } }

end Redirects

end ConsoleShell
