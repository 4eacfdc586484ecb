/-
Audited file stores.

An auditor is asked about every operation before it happens and may refuse it.  A refused
operation does not touch the store.
-/
import ConsoleShell.File.Request

namespace ConsoleShell

/-- A question put to an auditor. -/
structure Inquiry where
  operation : FileOperation
  path : Bytes
  deriving DecidableEq, Repr

/-- Decides on a question from all questions so far, the latest first; a reason refuses. -/
abbrev Auditor := List Inquiry → Option FileReason

namespace FileRequest

/-- Opening with any of these flags counts as a write. -/
def opensForWriting (flags : OpenFlags) : Bool :=
  flags.writeOnly || flags.readWrite || flags.append || flags.create || flags.truncate

/-- The questions an operation raises, in order. -/
def inquiries : FileRequest → List Inquiry
  | .chtimes p => [⟨.chtimes, p⟩]
  | .chmod p => [⟨.chmod, p⟩]
  | .chown p => [⟨.chown, p⟩]
  | .stat p => [⟨.stat, p⟩]
  | .lstat p => [⟨.lstat, p⟩]
  | .readlink p => [⟨.readlink, p⟩]
  | .rename a b => [⟨.rename, a⟩, ⟨.rename, b⟩]
  | .remove p => [⟨.remove, p⟩]
  | .removeAll p => [⟨.remove, p⟩]
  | .mkdir p => [⟨.mkdir, p⟩]
  | .mkdirAll p => [⟨.mkdir, p⟩]
  | .open p => [⟨.open, p⟩]
  | .openFile p flags => [⟨if opensForWriting flags then .write else .open, p⟩]
  | .create p => [⟨.create, p⟩]

end FileRequest

namespace Auditor

/-- Puts questions to the auditor until one is refused.  Returns the refusal and all questions
asked so far, the latest first. -/
def ask (a : Auditor) (asked : List Inquiry) : List Inquiry → Option FileFault × List Inquiry
  | [] => (none, asked)
  | q :: qs =>
    match a (q :: asked) with
    | some reason => (some ⟨q.operation.name, q.path, reason⟩, q :: asked)
    | none => a.ask (q :: asked) qs

end Auditor

/-! ### File systems -/

/-- A file system: its answer to an operation and its state afterwards.  An operation comes with
details that are of no concern here, such as times, modes and owners. -/
structure FileSystem (σ δ ν φ ε : Type) where
  perform : FileRequest → δ → σ → Except ε (FileAnswer ν φ) × σ
  /-- It looks at links themselves. -/
  seesLinks : Bool
  /-- It tells where links lead. -/
  readsLinks : Bool
  /-- How it reports a failed operation. -/
  fault : FileFault → ε

/-- What was found at a path, as the answer to a look at a possible link. -/
def FileAnswer.followed {ν φ : Type} : FileAnswer ν φ → FileAnswer ν φ
  | .info name node => .linkInfo name node false
  | a => a

/-- Performs an operation on a file system that may know nothing of links: it is then asked for
what is at the path, and does not tell where a link leads. -/
def FileSystem.serve {σ δ ν φ ε : Type} (base : FileSystem σ δ ν φ ε) (r : FileRequest)
    (details : δ) (s : σ) : Except ε (FileAnswer ν φ) × σ :=
  match r with
  | .lstat p =>
    if base.seesLinks then base.perform (.lstat p) details s
    else
      let (answer, s) := base.perform (.stat p) details s
      (answer.map FileAnswer.followed, s)
  | .readlink p =>
    if base.readsLinks then base.perform (.readlink p) details s
    else (.error (base.fault ⟨FileOperation.readlink.name, p, .noReadlink⟩), s)
  | r => base.perform r details s

/-- The state of a file system together with the questions its auditor has been asked, the latest
first. -/
structure UnderAudit (σ : Type) where
  store : σ
  asked : List Inquiry := []
  deriving DecidableEq, Repr

/-- Performs an operation if the auditor allows it. -/
def UnderAudit.perform {σ δ ν φ ε : Type} (base : FileSystem σ δ ν φ ε) (a : Auditor)
    (r : FileRequest) (details : δ) (s : UnderAudit σ) : Except ε (FileAnswer ν φ) × UnderAudit σ :=
  match a.ask s.asked r.inquiries with
  | (some f, asked) => (.error (base.fault f), { s with asked })
  | (none, asked) =>
    let (answer, store) := base.serve r details s.store
    (answer, ⟨store, asked⟩)

/-! ### Rules -/

/-- The rule for a console session: a read-only session may not change files. -/
def sessionAuditor (readOnly : Bool) : Auditor
  | q :: _ => if readOnly && q.operation.isWrite then some .permissionDenied else none
  | [] => none

/-- The question in words. -/
def Inquiry.text (q : Inquiry) : Bytes := q.operation.name ++ [Ascii.space] ++ q.path

/-- Refuses, for a reason, the operations and the questions with the given names. -/
def denyingAuditor (names : List Bytes) (reason : FileReason) : Auditor
  | q :: _ => if names.contains q.operation.name || names.contains q.text then some reason else none
  | [] => none

/-- The question is recorded in the event log; looking at paths is not. -/
def Inquiry.isRecorded (q : Inquiry) : Bool := q.operation != .stat && q.operation != .lstat

end ConsoleShell
