/-
Failures of file operations.

A failed operation names itself, the path it was asked for and a reason.
-/
import ConsoleShell.Text.Bytes

namespace ConsoleShell

/-- Why a file operation fails. -/
inductive FileReason where
  | notExist
  | alreadyExists
  | permissionDenied
  | notDirectory
  | isDirectory
  /-- The path is not there, in the words of the operating system. -/
  | noSuchFile
  /-- A write through a handle that was opened for reading. -/
  | readOnlyHandle
  /-- The same, in the words of the operating system. -/
  | badDescriptor
  /-- The handle has been closed. -/
  | closedFile
  /-- The stream has been closed, or there is none. -/
  | closedStream
  /-- The file became shorter than the position of the handle. -/
  | unexpectedEnd
  | noReadlink
  | invalidArgument
  /-- The medium refused the operation. -/
  | diskFull
  /-- Any other reason, in words. -/
  | other (text : Bytes)
  deriving DecidableEq, Repr

/-- The reason in words. -/
def FileReason.message : FileReason → Bytes
  | .notExist => "file does not exist"
  | .alreadyExists => "file already exists"
  | .permissionDenied => "permission denied"
  | .notDirectory => "not a directory"
  | .isDirectory => "is a directory"
  | .noSuchFile => "no such file or directory"
  | .readOnlyHandle => "file handle is read only"
  | .badDescriptor => "bad file descriptor"
  | .closedFile => "File is closed"
  | .closedStream => "file already closed"
  | .unexpectedEnd => "unexpected EOF"
  | .noReadlink => "readlink not supported"
  | .invalidArgument => "invalid argument"
  | .diskFull => "disk full"
  | .other text => text

/-- A failed file operation. -/
structure FileFault where
  operation : Bytes
  path : Bytes
  reason : FileReason
  deriving DecidableEq, Repr

/-- The operation, the path and the reason. -/
def FileFault.message (f : FileFault) : Bytes :=
  f.operation ++ " " ++ f.path ++ ": " ++ f.reason.message

end ConsoleShell
