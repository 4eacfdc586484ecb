/-
Files of any kind.

What works on files does so through operations and through the handles that they give out.  How
the files are kept is up to them: in memory, on a disk, or in any other way.  A store is one such
way.
-/
import ConsoleShell.File.Audit

namespace ConsoleShell

/-- Files in a state, of whatever kind: what operations do to them, and what can be done through
the handles that are given out.  What a handle stands for is known to the files alone. -/
class FileBase (σ : Type) where
  /-- Performs an operation. -/
  perform : FileRequest → σ → Except FileFault FileAnswer × σ
  /-- Links themselves can be looked at. -/
  seesLinks : σ → Bool
  /-- It can be told where links lead. -/
  readsLinks : σ → Bool
  /-- The entries of a directory with their names; none if no directory is there. -/
  list : Bytes → σ → List (Bytes × Node) × σ
  /-- Reads through a handle, at most a number of bytes. -/
  read : OpenFile → Nat → σ → Except StreamFault Bytes × OpenFile × σ
  /-- How many bytes can be read through a handle before the end. -/
  remaining : OpenFile → σ → Nat
  /-- Writes through a handle. -/
  write : OpenFile → Bytes → σ → Except StreamFault Unit × OpenFile × σ
  /-- Closes a handle; the failure if closing fails. -/
  close : OpenFile → σ → Option FileFault × OpenFile × σ

/-- The files as a file system, with links as far as they can be seen and read in a state. -/
def FileBase.system {σ : Type} [FileBase σ] (s : σ) :
    FileSystem σ Unit Node OpenFile FileFault where
  perform r _ s := FileBase.perform r s
  seesLinks := FileBase.seesLinks s
  readsLinks := FileBase.readsLinks s
  fault f := f

/-- Files of any kind together with the questions their auditor has been asked. -/
abbrev AuditedStore (σ : Type := FileStore) := UnderAudit σ

/-- Performs an operation if the auditor allows it. -/
def AuditedStore.perform {σ : Type} [FileBase σ] (s : AuditedStore σ) (a : Auditor)
    (r : FileRequest) : Except FileFault FileAnswer × AuditedStore σ :=
  UnderAudit.perform (FileBase.system s.store) a r () s

/-! ### Stores -/

/-- A store sees links if it reads them.  Closing a handle does not fail, nor does it change the
files. -/
@[default_instance] instance : FileBase FileStore where
  perform r s := s.perform r
  seesLinks s := s.links.isSome
  readsLinks s := s.links.isSome
  list p s := (if ((s.find? p).map Node.isDirectory).getD false then s.children p else [], s)
  read f count s :=
    let (answer, f) := f.read s count
    (answer, f, s)
  remaining f s := f.remaining s
  write f text s := f.write s text
  close f s := (none, { f with closed := true }, s)

namespace FileBase

@[simp] theorem perform_store (r : FileRequest) (s : FileStore) :
    FileBase.perform r s = s.perform r := rfl

@[simp] theorem list_store (p : Bytes) (s : FileStore) : FileBase.list p s =
    (if ((s.find? p).map Node.isDirectory).getD false then s.children p else [], s) := rfl

@[simp] theorem read_store (f : OpenFile) (count : Nat) (s : FileStore) :
    FileBase.read f count s = ((f.read s count).1, (f.read s count).2, s) := rfl

@[simp] theorem remaining_store (f : OpenFile) (s : FileStore) :
    FileBase.remaining f s = f.remaining s := rfl

@[simp] theorem write_store (f : OpenFile) (text : Bytes) (s : FileStore) :
    FileBase.write f text s = f.write s text := rfl

@[simp] theorem close_store (f : OpenFile) (s : FileStore) :
    FileBase.close f s = (none, { f with closed := true }, s) := rfl

end FileBase

/-- A store answers for links itself. -/
theorem FileStore.serve_system (s : FileStore) (r : FileRequest) :
    (FileBase.system s).serve r () s = s.perform r := by
  cases r with
  | lstat p =>
    cases h : s.links with
    | none => cases hstat : s.stat p <;>
        simp [FileSystem.serve, FileBase.system, FileBase.seesLinks, perform, h, hstat, Except.map,
          FileAnswer.followed]
    | some links => simp [FileSystem.serve, FileBase.system, FileBase.seesLinks, h]
  | readlink p =>
    cases h : s.links with
    | none => simp [FileSystem.serve, FileBase.system, FileBase.readsLinks, perform, h,
        FileOperation.name]
    | some links => simp [FileSystem.serve, FileBase.system, FileBase.readsLinks, h]
  | _ => rfl

theorem AuditedStore.perform_eq (s : AuditedStore) (a : Auditor) (r : FileRequest) :
    s.perform a r =
      match a.ask s.asked r.inquiries with
      | (some f, asked) => (.error f, { s with asked })
      | (none, asked) => ((s.store.perform r).1, ⟨(s.store.perform r).2, asked⟩) := by
  rw [perform, UnderAudit.perform, FileStore.serve_system]
  rfl

end ConsoleShell
