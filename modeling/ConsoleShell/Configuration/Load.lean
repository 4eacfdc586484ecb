/-
Configurations on disk.

A configuration is a directory with the settings and the key of the console host.  It is
made with default settings, and what is there already is kept.
-/
import ConsoleShell.Configuration.Default
import ConsoleShell.Configuration.Directory
import ConsoleShell.Configuration.HostKey
import ConsoleShell.Configuration.Settings

namespace ConsoleShell

/-- A configuration that has been loaded. -/
structure Configuration where
  directory : Bytes
  settings : Settings
  deriving DecidableEq, Repr

namespace Configuration

/-- The name of the file with the settings. -/
def fileName : Bytes := "config.yaml"

/-- The name of the file with the key of the console host. -/
def keyName : Bytes := "private_key"

/-- Why a configuration cannot be loaded. -/
inductive Fault where
  | file (fault : FileFault)
  /-- The settings cannot be read. -/
  | malformed
  /-- Settings break their rules. -/
  | invalid (violations : List Settings.Violation)
  deriving DecidableEq, Repr

/-- The fault in words. -/
def Fault.message : Fault → Bytes
  | .file f => f.message
  | .malformed => ("parsing " : Bytes) ++ fileName ++ ": malformed settings"
  | .invalid vs =>
    ("invalid " : Bytes) ++ fileName ++ ": " ++
      Bytes.join [Ascii.newline] (vs.map Settings.Violation.message)

/-- A file is not there. -/
def Fault.isMissing : Fault → Bool
  | .file f => f.reason = .notExist || f.reason = .noSuchFile
  | _ => false

/-- Loads the configuration in a directory, which may be given by its file of settings. -/
def load (s : FileStore) (path : Bytes) : Except Fault Configuration :=
  let directory := if Path.base path == fileName then Path.directory path else path
  match Directory.readFile directory s fileName with
  | .error f => .error (.file f)
  | .ok text =>
    match Settings.ofBytes? text with
    | none => .error .malformed
    | some settings =>
      match settings.violations with
      | [] => .ok { directory, settings }
      | vs => .error (.invalid vs)

/-! ### Making a configuration -/

/-- The state of making a configuration: the files, and the lines that were logged. -/
structure Setup where
  store : FileStore
  log : Bytes := []

/-- An action that makes a part of a configuration. -/
abbrev SetupM := ExceptT Fault (StateM Setup)

/-- Logs a line about a name. -/
def note (text : Bytes) (name : Bytes) : SetupM Unit :=
  modify fun s => { s with log := s.log ++ Bytes.line (text ++ name.quoted) }

/-- Changes the files, or fails. -/
def change (f : FileStore → Except FileFault FileStore) : SetupM Unit := do
  match f (← get).store with
  | .ok store => modify fun s => { s with store }
  | .error fault => throw (.file fault)

/-- Writes a file unless it is there. -/
def writeMissing (dir name data : Bytes) : SetupM Unit := do
  match Directory.perform dir (← get).store (.stat name) with
  | (.ok _, _) => note "- Keeping existing " name
  | (.error f, _) =>
    if !(Fault.file f).isMissing then throw (.file f)
    note "- Writing " name
    change fun s => Directory.writeFile dir s name data

/-- Creates a directory below another one. -/
def makeBelow (dir name : Bytes) : SetupM Unit := do
  match Directory.perform dir (← get).store (.mkdirAll name) with
  | (.ok _, store) => modify fun s => { s with store }
  | (.error f, _) => throw (.file f)

/-- Makes the missing parts of a configuration and loads it.  `key` is the text of the key
that is written if there is none. -/
def make (dir key : Bytes) : SetupM Configuration := do
  change fun s => s.makeDirectories dir
  note "Initializing configuration in " dir
  writeMissing dir fileName defaultText
  writeMissing dir keyName key
  match load (← get).store dir with
  | .error f => throw f
  | .ok c =>
    note "- Creating directory " c.settings.console.recordings
    makeBelow dir c.settings.console.recordings
    return c

/-- Makes a configuration: what came of it, the files, and what was logged. -/
def setUp (s : FileStore) (dir key : Bytes) :
    Except Fault Configuration × FileStore × Bytes :=
  let (r, setup) := (make dir key).run.run { store := s }
  (r, setup.store, setup.log)

/-! ### The files of a configuration -/

/-- Creates a recording with a name: the operations, in order. -/
def recordingRequests (c : Configuration) (name : Bytes) : List FileRequest :=
  let dir := c.settings.console.recordings
  [.mkdirAll dir, .create (Path.join [dir, name])]

/-- Opens the event log for writing at its end. -/
def logRequest (c : Configuration) : FileRequest :=
  .openFile c.settings.eventLog { append := true, create := true, writeOnly := true }

/-- Opens the event log for reading. -/
def readLogRequest (c : Configuration) : FileRequest := .openFile c.settings.eventLog {}

/-- Performs operations below the directory of the configuration up to the first that fails;
the answer of the last one. -/
def perform (c : Configuration) (s : FileStore) :
    List FileRequest → Except FileFault FileAnswer × FileStore
  | [] => (.ok .done, s)
  | [r] => Directory.perform c.directory s r
  | r :: rs =>
    match Directory.perform c.directory s r with
    | (.error f, s) => (.error f, s)
    | (.ok _, s) => c.perform s rs

/-- The key of the console host. -/
def key (c : Configuration) (s : FileStore) : Except FileFault Bytes :=
  Directory.readFile c.directory s keyName

/-- The path of the history file, empty if there is no history. -/
def historyPath (c : Configuration) : Bytes :=
  let name := c.settings.historyFile
  if name.isEmpty then [] else if Path.isAbsolute name then name else Path.join [c.directory, name]

end Configuration

end ConsoleShell
