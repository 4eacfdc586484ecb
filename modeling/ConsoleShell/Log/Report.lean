/-
Reports on an event log.

Three reports are kept: counts of what happened, the events that point to mistakes in
scripts and commands, and a summary of each session.
-/
import ConsoleShell.Event
import ConsoleShell.Log.Counter
import ConsoleShell.Log.Entry

namespace ConsoleShell

/-! ### Counts -/

/-- Counts of the events in a log. -/
structure Report where
  entries : Nat := 0
  /-- Names that denote no known event. -/
  unknown : Counter Bytes := {}
  sources : Counter Bytes := {}
  results : Counter Bytes := {}
  users : Counter Bytes := {}
  logins : Counter Bytes := {}
  run : Counter Bytes := {}
  notFound : Counter Bytes := {}
  invalid : Counter Bytes := {}
  errors : Counter Bytes := {}
  /-- The causes of crashes in order. -/
  crashes : List Bytes := []
  messages : Counter Bytes := {}
  /-- Operations on files, once there is one. -/
  files : Option RowCounter := none
  deriving DecidableEq, Repr

namespace Report

/-- Counts a text unless it is empty. -/
def countName (c : Counter Bytes) (name : Bytes) : Counter Bytes :=
  if name.isEmpty then c else c.add name

/-- The columns in which file operations are counted. -/
def fileColumns : List Bytes := ["op", "path", "result"]

/-- Counts an event by its name. -/
def count (r : Report) (e : LogEntry) : Report :=
  let name := e.commandName
  match EventKind.ofName? e.event with
  | some .sessionStart => { r with sources := r.sources.add e.source }
  | some .sessionEnd => { r with results := r.results.add (if e.error.isEmpty then "ok" else e.error) }
  | some .loginAttempt => { r with users := r.users.add e.user, logins := r.logins.add e.result }
  | some .runCommand => { r with run := countName r.run name }
  | some .unknownCommand => { r with notFound := countName r.notFound name }
  | some .invalidInvocation =>
    { r with invalid := countName r.invalid name, errors := r.errors.add e.error }
  | some .crash => { r with crashes := r.crashes ++ [e.context] }
  | some .errorLog => { r with messages := r.messages.add e.message }
  | some .fileAccess =>
    let files := r.files.getD { columns := fileColumns }
    { r with files := some (files.add [e.operation, e.path, e.result]) }
  | some .openRecording => r
  | none => { r with unknown := r.unknown.add e.event }

/-- Adds an event. -/
def update (r : Report) (e : LogEntry) : Report := { r with entries := r.entries + 1 }.count e

/-- The report on the events of a log. -/
def ofEntries (es : List LogEntry) : Report := es.foldl update {}

/-- The report as an object. -/
def json (r : Report) : Json :=
  let files : List (Bytes × Json) := match r.files with
    | none => []
    | some c => [("file_access", c.json)]
  .object ([
    (("log_entries" : Bytes), .ofNat r.entries),
    ("unknown_log_entries", r.unknown.json),
    ("session_report", .object [("sources", r.sources.json), ("results", r.results.json)]),
    ("login_attempt_report", .object [("usernames", r.users.json), ("results", r.logins.json)]),
    ("run_command_report", .object [("command_names", r.run.json)]),
    ("unknown_command_report", .object [("command_names", r.notFound.json)]),
    ("invalid_invocation_report",
      .object [("command_counts", r.invalid.json), ("errors", r.errors.json)]),
    ("panic_report", .object [("contexts", .ofStringsOrNull r.crashes)]),
    ("errlog_messages", r.messages.json)] ++ files)

end Report

/-! ### Mistakes -/

/-- The events that point to mistakes in scripts and commands. -/
structure MistakeReport where
  entries : Nat := 0
  invalid : RowCounter := { columns := ["command", "error"] }
  unknown : RowCounter := { columns := ["command"] }
  crashes : List Bytes := []
  deriving DecidableEq, Repr

namespace MistakeReport

/-- Adds an event. -/
def update (r : MistakeReport) (e : LogEntry) : MistakeReport :=
  let r := { r with entries := r.entries + 1 }
  match EventKind.ofName? e.event with
  | some .crash => { r with crashes := r.crashes ++ [e.context] }
  | some .unknownCommand => { r with unknown := r.unknown.add [e.commandName] }
  | some .invalidInvocation => { r with invalid := r.invalid.add [e.commandName, e.error] }
  | _ => r

/-- The report on the events of a log. -/
def ofEntries (es : List LogEntry) : MistakeReport := es.foldl update {}

/-- The report as an object. -/
def json (r : MistakeReport) : Json := .object [
  ("log_entries", .ofNat r.entries),
  ("invalid_invocations", r.invalid.json),
  ("unknown_commands", r.unknown.json),
  ("panics", .ofStringsOrNull r.crashes)]

end MistakeReport

/-! ### Sessions -/

/-- What happened in one session. -/
structure SessionSummary where
  user : Bytes := []
  address : Bytes := []
  source : Bytes := []
  recording : Bytes := []
  entries : Nat := 0
  /-- The lines that were run, with single blanks between the words. -/
  commands : List Bytes := []
  result : Bytes := []
  deriving DecidableEq, Repr

namespace SessionSummary

/-- Adds an event. -/
def update (s : SessionSummary) (e : LogEntry) : SessionSummary :=
  let s := { s with entries := s.entries + 1 }
  let run := { s with commands := s.commands ++ [Bytes.join [Ascii.space] e.command] }
  match EventKind.ofName? e.event with
  | some .loginAttempt => { s with user := e.user, address := e.address }
  | some .sessionStart => { s with source := e.source }
  | some .sessionEnd => { s with result := e.error }
  | some .runCommand => run
  | some .unknownCommand => run
  | some .openRecording => { s with recording := e.name }
  | _ => s

/-- A field that is left out if it is empty. -/
def optional (key value : Bytes) : List (Bytes × Json) :=
  if value.isEmpty then [] else [(key, .string value)]

/-- The summary as an object. -/
def json (s : SessionSummary) : Json := .object (
  [(("login" : Bytes), Json.object (optional "username" s.user ++ optional "remote_addr" s.address)),
   ("source", .string s.source)] ++ optional "tty_log" s.recording ++
  [(("log_entries" : Bytes), Json.ofNat s.entries), ("commands", .ofStringsOrNull s.commands)] ++
  optional "result" s.result)

end SessionSummary

/-- The summaries of sessions by their identifiers. -/
abbrev Interactions := List (Bytes × SessionSummary)

namespace Interactions

/-- Changes the summary of a session, which may be a new one. -/
def modify (id : Bytes) (f : SessionSummary → SessionSummary) : Interactions → Interactions
  | [] => [(id, f {})]
  | (x, s) :: rest => if x == id then (x, f s) :: rest else (x, s) :: modify id f rest

/-- Adds an event to the summary of its session; events outside of sessions are skipped. -/
def update (i : Interactions) (e : LogEntry) : Interactions :=
  if e.session.isEmpty then i else modify e.session (fun s => s.update e) i

/-- The summaries for the events of a log. -/
def ofEntries (es : List LogEntry) : Interactions := es.foldl update []

/-- The summaries as an object. -/
def json (i : Interactions) : Json := .object (i.map fun (id, s) => (id, s.json))

end Interactions

end ConsoleShell
