/-
The console server.

Whoever logs in with a name and a password gets a session: a shell of its own that shares
the table, the environment, the files and the history with the other sessions.  A session
with a command runs it and ends; otherwise it is interactive and is recorded.
-/
import ConsoleShell.Configuration.Load
import ConsoleShell.Recording.Recorder
import ConsoleShell.Recording.Sink
import ConsoleShell.Shell.Interpreter

namespace ConsoleShell

/-- What a client asks for. -/
structure Connection where
  /-- Where the client connects from. -/
  address : Bytes
  /-- The command to run; the session is interactive if it is empty. -/
  command : Bytes := []
  /-- What the client sends. -/
  input : Bytes := []
  /-- The client has a terminal. -/
  hasTerminal : Bool := false
  /-- The client is gone already. -/
  isGone : Bool := false
  deriving DecidableEq, Repr

/-- A console that takes connections. -/
structure ConsoleServer where
  configuration : Configuration
  /-- Where sessions start. -/
  directory : Bytes
  host : Host

namespace ConsoleServer

/-- Why a console cannot start. -/
inductive Fault where
  | unreadableKey (fault : FileFault)
  | unusableKey
  deriving DecidableEq, Repr

/-- The fault in words. -/
def Fault.message : Fault → Bytes
  | .unreadableKey f => ("reading host key: " : Bytes) ++ f.message
  | .unusableKey => "parsing host key: ssh: no key found"

/-- The console of a configuration, unless its key cannot be used. -/
def start (c : Configuration) (directory : Bytes) (host : Host) : Except Fault ConsoleServer :=
  match c.key host.store with
  | .error f => .error (.unreadableKey f)
  | .ok key =>
    if HostKey.isUsable key then .ok { configuration := c, directory, host }
    else .error .unusableKey

/-- Decides about somebody who gives a name and a password, and records it. -/
def authenticate (s : ConsoleServer) (address user password : Bytes) : Bool × ConsoleServer :=
  let accepted := (s.configuration.settings.passwords user).contains password
  let m : Machine := ⟨{}, s.host⟩
  (accepted, { s with host := (m.record (.loginAttempt user address accepted)).host })

/-! ### Sessions -/

/-- The shell of a session. -/
def shell (s : ConsoleServer) (id : Bytes) (c : Connection) : Shell :=
  let settings := s.configuration.settings
  { name := id, session := some id, directory := s.directory, colored := settings.color,
    guard := .session settings.console.readOnly, input := c.input,
    console := if c.hasTerminal then .terminal settings.historyLimit else .plain }

/-- The format of recordings. -/
def format (s : ConsoleServer) : Recording.Format :=
  (Recording.Format.ofName? s.configuration.settings.console.recordingFormat).getD .asciicast

/-- The name of the file of a recording. -/
def recordingFile (s : ConsoleServer) (recording : Bytes) : Bytes :=
  recording ++ "." ++ s.format.extension

/-- The recording of what went through the streams of a shell. -/
def recordingOf (format : Recording.Format) (shell : Nat) (ts : List Transfer) : Bytes :=
  let accept : Recording.SinkRule := fun _ _ => none
  let observe (r : Recording.Recorder) (t : Transfer) : Recording.Recorder :=
    if t.shell == shell then r.observe accept 0 t.fd t.data else r
  format.write ((ts.foldl observe {}).close accept 0).entries

/-- Runs the console and records it in an open file. -/
def runRecorded (s : ConsoleServer) (m : Machine) (fuel : Nat) (context : Option Context)
    (file : OpenFile) : Option (Option Failure × Machine) :=
  let (handle, m) := m.keep file
  let before := m.host.traffic.length
  let banner := s.configuration.settings.console.banner
  (((m.write .standard banner).load fuel context Source.consoleName []).map fun (o, m) =>
    let traffic := m.host.traffic.drop before
    (o.failure, (m.writeFile handle (recordingOf s.format m.shell.id traffic)).2))

/-- Runs an interactive session with a recording of the given name. -/
def runInteractive (s : ConsoleServer) (m : Machine) (fuel : Nat) (context : Option Context)
    (recording : Bytes) : Option (Option Failure × Machine) :=
  let name := s.recordingFile recording
  let (answer, store) := s.configuration.perform m.host.store (s.configuration.recordingRequests name)
  let m := { m with host := { m.host with store } }
  match answer with
  | .error f => some (some (.plain (("creating recording: " : Bytes) ++ f.message)), m)
  | .ok (.handle file) => s.runRecorded (m.record (.openRecording name)) fuel context file
  | .ok _ => some (none, m)

/-- Runs a session: its failure, and the console afterwards.  There is no answer when fuel
runs out. -/
def serve (s : ConsoleServer) (fuel : Nat) (id recording : Bytes) (c : Connection) :
    Option (Option Failure × ConsoleServer) :=
  let m := Machine.record ⟨s.shell id c, s.host⟩ (.sessionStart c.address)
  let (context, m) := m.openContext c.isGone none none []
  let run :=
    if c.command.isEmpty then s.runInteractive m fuel (some context) recording
    else (m.runLine fuel (some context) c.command []).map fun (o, m) => (o.failure, m)
  run.map fun (failure, m) =>
    (failure, { s with host := (m.record (.sessionEnd (failure.map Failure.message))).host })

/-- The exit status of a session. -/
def exitStatus (failure : Option Failure) : Nat := if failure.isSome then 1 else 0

end ConsoleServer

end ConsoleShell
