/-
The state of a shell and of the process it runs in.

A shell has its own streams, working directory and stack of scopes.  The table, the
environment, the files and the list of sessions belong to the process, and shells share
them.  The files may be of any kind; if nothing else is said, they are those of a store.
-/
import ConsoleShell.File.Base
import ConsoleShell.Line
import ConsoleShell.LineEditor.Buffer
import ConsoleShell.Shell.Gate
import ConsoleShell.Shell.Routine
import ConsoleShell.Substitution

namespace ConsoleShell

/-- Something that can be cancelled, by its number. -/
abbrev Context := Nat

/-- What a shell reads from when it is asked to run the console. -/
inductive Console where
  /-- Lines of the input stream. -/
  | plain
  /-- A terminal with editing, completion and the given number of lines to recall. -/
  | terminal (recalled : Int)
  /-- Nothing, for a reason. -/
  | missing (reason : Bytes)
  deriving DecidableEq, Repr

/-- Who is asked before a shell touches a file. -/
inductive Guard where
  | none
  /-- The rule for console sessions, which records what is opened or changed. -/
  | session (readOnly : Bool)
  deriving DecidableEq, Repr

/-- A redirection with its open target and the endpoint that it replaced. -/
structure Attachment where
  redirection : Redirection
  /-- The number of the open target. -/
  handle : Option Nat := none
  /-- What the stream led to before. -/
  saved : Option Endpoint := none
  deriving DecidableEq, Repr

/-- An interpreter. -/
structure Shell where
  /-- Tells shells of one process apart. -/
  id : Nat := 0
  /-- The name under which the shell is listed while it runs; unlisted if empty. -/
  name : Bytes := []
  directory : Bytes := [Ascii.slash]
  colored : Bool := false
  console : Console := .plain
  guard : Guard := .none
  /-- Events are recorded. -/
  recorded : Bool := true
  /-- The identifier of the session in recorded events. -/
  session : Option Bytes := none
  /-- What is still to be read from the input of the session. -/
  input : Bytes := []
  streams : Streams Endpoint := ⟨.session, .session, .session⟩
  /-- The context of the innermost invocation. -/
  context : Option Context := none
  /-- The scopes of the running invocations, the innermost first. -/
  scopes : List Scope := []
  /-- The definitions of the running invocations. -/
  definitions : Option Definitions := none
  /-- The redirections of the line whose command is running. -/
  attachments : List Attachment := []
  deriving DecidableEq, Repr

/-- Bytes that a shell read from or wrote to its session. -/
structure Transfer where
  shell : Nat
  fd : Nat
  data : Bytes
  deriving DecidableEq, Repr

/-- What cancels a context by itself. -/
structure Trigger where
  context : Context
  /-- A write of the shell to its session that contains this text. -/
  written : Option Bytes := none
  /-- A recorded event whose line contains this text. -/
  recorded : Option Bytes := none
  shell : Nat := 0
  deriving DecidableEq, Repr

/-- How a suspension ends after the operator's lines. -/
inductive Release where
  | resume
  | cancel
  | nothing
  deriving DecidableEq, Repr

/-- What an operator does about a suspended shell. -/
structure Intervention where
  lines : List Bytes := []
  release : Release := .nothing
  deriving DecidableEq, Repr

/-- What became of an operator's action. -/
inductive Attendance where
  /-- A line was run, and this was written. -/
  | ran (failure : Option Failure) (written : List Transfer)
  /-- The shell was resumed; false if it was not suspended any more. -/
  | resumed (effective : Bool)
  deriving DecidableEq, Repr

/-- A command that was called for a line: the words of the line, and the shell as the command
found it. -/
structure Call where
  words : List Bytes
  shell : Shell
  deriving DecidableEq, Repr

/-- What the shells of a process share, with files of the kind `σ`. -/
structure Host (σ : Type := FileStore) where
  table : CommandTable := {}
  environment : Environment := {}
  store : σ := by exact {}
  /-- The files that have been opened, by number. -/
  handles : List OpenFile := []
  /-- Files whose handles fail to close. -/
  failing : List Bytes := []
  /-- The recorded events in order. -/
  events : List Event := []
  /-- The number of the open file that recorded events are written to. -/
  eventLog : Option Nat := none
  /-- The time that is written with recorded events. -/
  stamp : Bytes := []
  /-- Warnings among the recorded events are also written to the error output. -/
  verbose : Bool := false
  /-- The bytes that were read from and written to sessions, in order. -/
  traffic : List Transfer := []
  history : Option History := none
  clock : Instant := ⟨0, 0⟩
  /-- The values of variables. -/
  cells : List (Storage × CellValue) := []
  /-- The running shells by name. -/
  sessions : List (Bytes × Nat) := []
  /-- The gates of shells that have been suspended, by the number of the shell. -/
  gates : List (Nat × Gate) := []
  cancelled : List Context := []
  triggers : List Trigger := []
  /-- What is done at the suspensions to come; a suspension beyond the list is cancelled. -/
  plan : List Intervention := []
  /-- The shell whose lines are run during suspensions. -/
  operator : Shell := { id := 1, name := "operator", recorded := false }
  attended : List Attendance := []
  /-- The number of suspensions. -/
  suspensions : Nat := 0
  /-- What commands told the program around the shell, in order. -/
  notes : List (Bytes × Arguments) := []
  /-- The commands that were called for lines, the latest first. -/
  calls : List Call := []
  /-- The file operations that shells asked for, the latest first. -/
  requests : List FileRequest := []
  /-- What the table reported about registrations. -/
  log : Bytes := []
  /-- The number of contexts that have been made. -/
  contexts : Nat := 0

namespace Host

variable {σ : Type}

/-- The gate of a shell. -/
def gate (h : Host σ) (id : Nat) : Gate := ((h.gates.find? fun g => g.1 == id).map (·.2)).getD {}

/-- Changes the gate of a shell. -/
def setGate (h : Host σ) (id : Nat) (g : Gate) : Host σ :=
  { h with gates := (id, g) :: h.gates.filter fun x => x.1 != id }

/-- The shells that are suspended. -/
def suspended (h : Host σ) : List Nat :=
  (h.gates.map (·.1)).filter fun id => (h.gate id).isHalted

/-- The running shell that is listed under a name. -/
def session? (h : Host σ) (name : Bytes) : Option Nat :=
  (h.sessions.find? fun s => s.1 == name).map (·.2)

/-- The listed shells in the order of their names. -/
def listing (h : Host σ) : List (Bytes × Nat) := h.sessions.mergeSort fun a b => a.1.le b.1

end Host

/-- A shell in its process. -/
structure Machine (σ : Type := FileStore) where
  shell : Shell := {}
  host : Host σ := by exact {}

namespace Machine

variable {σ : Type}

/-- A shell in a process whose operator writes to the session and works under the same
guard. -/
def start (shell : Shell) (host : Host σ) : Machine σ :=
  let operator :=
    { host.operator with streams := ⟨.null, .session, .session⟩, guard := shell.guard }
  { shell, host := { host with operator } }

/-! ### Contexts -/

/-- The context has been cancelled. -/
def isCancelled (m : Machine σ) : Option Context → Bool
  | none => false
  | some c => m.host.cancelled.contains c

/-- Cancels a context. -/
def cancel (m : Machine σ) : Option Context → Machine σ
  | none => m
  | some c => { m with host := { m.host with cancelled := c :: m.host.cancelled } }

/-- Makes a context, which may be cancelled from the start and which a text in a written
output or in a recorded event cancels.  The plan says what is done at suspensions. -/
def openContext (m : Machine σ) (cancelled : Bool) (written recorded : Option Bytes)
    (plan : List Intervention) : Context × Machine σ :=
  let c := m.host.contexts
  (c, { m with host := { m.host with
    contexts := c + 1, plan, triggers := [{ context := c, written, recorded }],
    cancelled := if cancelled then [c] else [] } })

/-- Forgets what has been observed so far: events, traffic, notes, calls, file operations,
attendances and reports. -/
def settle (m : Machine σ) : Machine σ :=
  { m with host := { m.host with
    events := [], traffic := [], notes := [], calls := [], requests := [], attended := [],
    suspensions := 0, log := [] } }

/-- Cancels the contexts of the triggers that a test holds for. -/
def trip (m : Machine σ) (test : Trigger → Bool) : Machine σ :=
  let hit := (m.host.triggers.filter test).map Trigger.context
  { m with host := { m.host with cancelled := hit ++ m.host.cancelled } }

/-! ### Open files and events -/

/-- Changes an open file together with the files. -/
def setFile (m : Machine σ) (h : Nat) (f : OpenFile) (store : σ) : Machine σ :=
  { m with host := { m.host with store, handles := m.host.handles.set h f } }

/-- Reads from an open file, at most a number of bytes. -/
def readFile [FileBase σ] (m : Machine σ) (h count : Nat) : Except StreamFault Bytes × Machine σ :=
  match m.host.handles[h]? with
  | none => (.error (.plain .closedStream), m)
  | some f =>
    let (answer, f, store) := FileBase.read f count m.host.store
    (answer, m.setFile h f store)

/-- Writes to an open file. -/
def writeFile [FileBase σ] (m : Machine σ) (h : Nat) (text : Bytes) :
    Except StreamFault Unit × Machine σ :=
  match m.host.handles[h]? with
  | none => (.error (.plain .closedStream), m)
  | some f =>
    let (answer, f, store) := FileBase.write f text m.host.store
    (answer, m.setFile h f store)

/-- Adds to what was read from and written to sessions. -/
def transfer (m : Machine σ) (fd : Nat) (data : Bytes) : Machine σ :=
  let t : Transfer := ⟨m.shell.id, fd, data⟩
  { m with host := { m.host with traffic := m.host.traffic ++ [t] } }

/-- Shows an event that is at least a warning. -/
def showEvent (m : Machine σ) (e : Event) : Machine σ :=
  if m.host.verbose && Level.warn.rank ≤ e.level.rank then
    m.transfer 2 (e.textLine m.host.stamp m.shell.session)
  else m

/-- Writes an event to the log. -/
def logEvent [FileBase σ] (m : Machine σ) (e : Event) : Machine σ :=
  match m.host.eventLog with
  | none => m
  | some h => (m.writeFile h (e.jsonLine m.host.stamp m.shell.session)).2

/-- Records an event. -/
def record [FileBase σ] (m : Machine σ) (e : Event) : Machine σ :=
  if m.shell.recorded then
    let m := ({ m with host := { m.host with events := m.host.events ++ [e] } }.logEvent e).showEvent e
    m.trip fun t => t.recorded.any fun text => Bytes.hasInfix text (e.jsonLine [] none)
  else m

/-! ### Files -/

/-- Notes that a file operation is asked for. -/
def noteRequest (m : Machine σ) (r : FileRequest) : Machine σ :=
  { m with host := { m.host with requests := r :: m.host.requests } }

/-- Performs a file operation under the guard of the shell. -/
def request [FileBase σ] (m : Machine σ) (r : FileRequest) :
    Except FileFault FileAnswer × Machine σ :=
  let m := m.noteRequest r
  match m.shell.guard with
  | .none =>
    let (answer, store) := FileBase.perform r m.host.store
    (answer, { m with host := { m.host with store } })
  | .session readOnly =>
    let auditor := sessionAuditor readOnly
    let (answer, audited) := AuditedStore.perform ⟨m.host.store, []⟩ auditor r
    let event (q : Inquiry) : Event :=
      .fileAccess q.operation.name q.path (auditor [q]).isNone
    let events := (audited.asked.reverse.filter Inquiry.isRecorded).map event
    (answer, events.foldl record { m with host := { m.host with store := audited.store } })

/-- Keeps an open file; its number. -/
def keep (m : Machine σ) (f : OpenFile) : Nat × Machine σ :=
  (m.host.handles.length, { m with host := { m.host with handles := m.host.handles ++ [f] } })

/-- Opens a file; its number. -/
def openFile [FileBase σ] (m : Machine σ) (r : FileRequest) : Except FileFault Nat × Machine σ :=
  match m.request r with
  | (.error f, m) => (.error f, m)
  | (.ok (.handle f), m) =>
    let (h, m) := m.keep f
    (.ok h, m)
  | (.ok _, m) => (.error ⟨"open", [], .invalidArgument⟩, m)

/-- Closes an open file; the failure if closing fails. -/
def closeHandle [FileBase σ] (m : Machine σ) (h : Nat) : Option FileFault × Machine σ :=
  match m.host.handles[h]? with
  | none => (none, m)
  | some f =>
    let (fault, g, store) := FileBase.close f m.host.store
    let fault :=
      if m.host.failing.contains f.path then some ⟨"close", f.path, .diskFull⟩ else fault
    (fault, m.setFile h g store)

/-- The entries of a directory. -/
def listDirectory [FileBase σ] (m : Machine σ) (path : Bytes) :
    List (Bytes × Node) × Machine σ :=
  let (entries, store) := FileBase.list path m.host.store
  (entries, { m with host := { m.host with store } })

/-- The path of a name as the shell sees it. -/
def resolve (m : Machine σ) (name : Bytes) : Bytes := Path.resolve m.shell.directory name

/-- Changes the working directory. -/
def changeDirectory [FileBase σ] (m : Machine σ) (dir : Bytes) :
    Except FileFault Unit × Machine σ :=
  let path := m.resolve dir
  match m.request (.stat path) with
  | (.error f, m) => (.error f, m)
  | (.ok (.info _ node), m) =>
    if node.isDirectory then (.ok (), { m with shell := { m.shell with directory := path } })
    else (.error ⟨"chdir", dir, .notDirectory⟩, m)
  | (.ok _, m) => (.error ⟨"chdir", dir, .notDirectory⟩, m)

/-! ### Streams -/

/-- Reads at most `count` bytes from an endpoint of the input stream. -/
def read [FileBase σ] (e : Endpoint) (count : Nat) (m : Machine σ) :
    Except StreamFault Bytes × Machine σ :=
  match e with
  | .null => (.error (.plain .closedStream), m)
  | .session =>
    let (answer, input) := Bytes.readPortion count m.shell.input
    let m := { m with shell := { m.shell with input } }
    match answer with
    | .ok data => (.ok data, m.transfer 0 data)
    | .error f => (.error f, m)
  | .file h => m.readFile h count

/-- How many bytes can be read from an endpoint at most. -/
def available [FileBase σ] (m : Machine σ) : Endpoint → Nat
  | .null => 0
  | .session => m.shell.input.length
  | .file h => ((m.host.handles[h]?).map fun f => FileBase.remaining f m.host.store).getD 0

/-- Reads everything from an endpoint, with the failure that ended it before its end. -/
def readAll [FileBase σ] (m : Machine σ) (e : Endpoint) :
    (Bytes × Option StreamFault) × Machine σ :=
  match m.read e (m.available e + 1) with
  | (.ok data, m) => ((data, none), m)
  | (.error .endOfInput, m) => (([], none), m)
  | (.error f, m) => (([], some f), m)

/-- Writes to an endpoint of an output stream. -/
def writeTo [FileBase σ] (m : Machine σ) (fd : Nat) (e : Endpoint) (text : Bytes) : Machine σ :=
  match e with
  | .null => m
  | .session =>
    (m.transfer fd text).trip fun t =>
      t.shell == m.shell.id && t.written.any fun part => Bytes.hasInfix part text
  | .file h => (m.writeFile h text).2

/-- Writes to an output stream. -/
def write [FileBase σ] (m : Machine σ) (o : Output) (text : Bytes) : Machine σ :=
  m.writeTo o.fd (m.shell.streams.written o) text

/-- Writes a line to an output stream. -/
def writeLine [FileBase σ] (m : Machine σ) (o : Output) (text : Bytes) : Machine σ :=
  m.write o text.line

/-- Notes that a command is called for a line. -/
def noteCall (m : Machine σ) (words : List Bytes) : Machine σ :=
  { m with host := { m.host with calls := ⟨words, m.shell⟩ :: m.host.calls } }

/-- The number of the file that the running line redirects a descriptor to. -/
def descriptor? (m : Machine σ) (fd : Int) : Option Nat :=
  (m.shell.attachments.find? fun a => (a.redirection.fd : Int) == fd).bind Attachment.handle

/-! ### Scopes and definitions -/

/-- Changes the innermost scope. -/
def modifyScope (m : Machine σ) (f : Scope → Scope) : Machine σ :=
  match m.shell.scopes with
  | [] => m
  | s :: rest => { m with shell := { m.shell with scopes := f s :: rest } }

/-- Sets or clears the mark that the latest line failed. -/
def setErrored (m : Machine σ) (errored : Bool) : Machine σ :=
  m.modifyScope fun s => { s with errored }

/-- The innermost scope has the mark that the latest line failed. -/
def isErrored (m : Machine σ) : Bool := (m.shell.scopes.head?.map Scope.errored).getD false

/-- The current invocation reads from a console. -/
def isInteractive (m : Machine σ) : Bool :=
  (m.shell.scopes.head?.map Scope.interactive).getD false

/-- Removes a name from every scope of definitions. -/
def clearDefinition (m : Machine σ) (name : Bytes) : Machine σ :=
  let definitions := m.shell.definitions.map fun d => d.clear name
  { m with shell := { m.shell with definitions } }

/-- Replaces the environment. -/
def setEnvironment (m : Machine σ) (environment : Environment) : Machine σ :=
  { m with host := { m.host with environment } }

/-- Sets a variable of the environment. -/
def setVariable (m : Machine σ) (name value : Bytes) :
    Except Environment.BadName Unit × Machine σ :=
  match m.host.environment.set name value with
  | .error f => (.error f, m)
  | .ok e => (.ok (), m.setEnvironment e)

/-- Replaces the table. -/
def setTable (m : Machine σ) (table : CommandTable) : Machine σ :=
  { m with host := { m.host with table } }

/-! ### Sessions -/

/-- Lists the shell under its name in place of another shell of that name. -/
def enlist (m : Machine σ) : Machine σ :=
  let others := m.host.sessions.filter fun s => s.1 != m.shell.name
  { m with host := { m.host with sessions := (m.shell.name, m.shell.id) :: others } }

/-- Takes the shell off the list, unless another shell has its place. -/
def delist (m : Machine σ) : Machine σ :=
  let sessions := m.host.sessions.filter fun s => s != (m.shell.name, m.shell.id)
  { m with host := { m.host with sessions } }

/-- The sessions in the order of their names, each with whether it is suspended. -/
def sessions (m : Machine σ) : List (Bytes × Bool) :=
  m.host.listing.map fun (name, id) => (name, m.host.suspended.contains id)

/-- Suspends the shell at its gate; the channel that it waits on. -/
def halt (m : Machine σ) : Nat × Machine σ :=
  let (channel, gate) := (m.host.gate m.shell.id).announce
  (channel, { m with host := { m.host.setGate m.shell.id gate with
    suspensions := m.host.suspensions + 1 } })

/-- Ends the suspension of a shell; false if it is not suspended. -/
def release (m : Machine σ) (id : Nat) : Bool × Machine σ :=
  match (m.host.gate id).resume? with
  | none => (false, m)
  | some gate => (true, { m with host := m.host.setGate id gate })

/-- The shell does not wait on a channel any more. -/
def withdraw (m : Machine σ) (channel : Nat) : Machine σ :=
  { m with host :=
      m.host.setGate m.shell.id ((m.host.gate m.shell.id).withdraw channel) }

/-- Resumes the session with a name; none if there is no such session. -/
def resume (m : Machine σ) (name : Bytes) : Option Bool × Machine σ :=
  match m.host.session? name with
  | none => (none, m)
  | some id =>
    let (effective, m) := m.release id
    (some effective, m)

/-! ### Variables -/

/-- The value that is kept in a storage; zero before it is first changed. -/
def cell (m : Machine σ) (s : Storage) : Option CellValue :=
  let kept := (m.host.cells.find? fun c => c.1 == s).map (·.2)
  match s with
  | .int _ => some (kept.getD (.int 0))
  | .double _ => some (kept.getD (.double (.zero false)))
  | _ => none

/-- Changes the value that is kept in a storage. -/
def setCell (m : Machine σ) (s : Storage) (v : CellValue) : Machine σ :=
  let others := m.host.cells.filter fun c => c.1 != s
  { m with host := { m.host with cells := (s, v) :: others } }

/-! ### Queries -/

/-- Answers a query of a command. -/
def answer [FileBase σ] (m : Machine σ) : (q : Query) → q.Answer × Machine σ
  | .write o text => ((), m.write o text)
  | .readAll => m.readAll m.shell.streams.input
  | .writeDescriptor fd text =>
    match m.descriptor? fd with
    | none => (none, m)
    | some h =>
      let (answer, m) := m.writeFile h text
      (some answer, m)
  | .isColored => (m.shell.colored, m)
  | .name => (m.shell.name, m)
  | .workingDirectory => (m.shell.directory, m)
  | .changeDirectory dir => m.changeDirectory dir
  | .environment => (m.host.environment, m)
  | .setEnvironment name value => m.setVariable name value
  | .unsetEnvironment name => ((), m.setEnvironment (m.host.environment.unset name))
  | .clearDefinition name => ((), m.clearDefinition name)
  | .record e => ((), m.record e)
  | .commands => (m.host.table.commands.map Command.signature, m)
  | .vars => (m.host.table.vars, m)
  | .findVariable name => (m.host.table.findVariable? name, m)
  | .cell s => (m.cell s, m)
  | .setCell s v => ((), m.setCell s v)
  | .history => (m.host.history, m)
  | .clearHistory =>
    ((), { m with host := { m.host with history := m.host.history.map History.clear } })
  | .sessions => (m.sessions, m)
  | .resume name => m.resume name
  | .isSuspended => (m.host.suspended.contains m.shell.id, m)
  | .scope => (m.shell.scopes.head?, m)
  | .setPolicy p => ((), m.modifyScope fun s => { s with policy := p })
  | .setTimeout t => ((), m.modifyScope fun s => { s with timeout := t })
  | .setErrored b => ((), m.setErrored b)
  | .now => (m.host.clock, m)
  | .pause => (!m.isCancelled m.shell.context, m)
  | .notify name args =>
    ((), { m with host := { m.host with notes := m.host.notes ++ [(name, args)] } })

end Machine

end ConsoleShell
