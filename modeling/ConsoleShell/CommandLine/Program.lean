/-
The program.

A run of the program takes the words of its command line, does the task that they name,
and leaves what it wrote, the files as they are then, and the reason if it failed.
-/
import ConsoleShell.CommandLine.Application
import ConsoleShell.CommandLine.Topic
import ConsoleShell.Log.Report
import ConsoleShell.Recording.Sink
import ConsoleShell.Yaml.Writer

namespace ConsoleShell

namespace CommandLine

/-- What a run leaves behind. -/
structure Run where
  store : FileStore
  /-- What was written to the standard output. -/
  output : Bytes := []
  /-- What was written to the standard error output. -/
  errors : Bytes := []
  /-- Notices of the program about itself. -/
  log : Bytes := []
  /-- Why the run failed. -/
  failure : Option Bytes := none
  deriving DecidableEq, Repr

namespace Run

/-- The failure of a run whose shell has told already what went wrong. -/
def interpreterFailed : Bytes := "interpreter failed"

/-- Fails and says why. -/
def fail (r : Run) (message : Bytes) : Run :=
  { r with errors := r.errors ++ Bytes.line (("Error: " : Bytes) ++ message), failure := some message }

/-- Fails without a word. -/
def failSilently (r : Run) : Run := { r with failure := some interpreterFailed }

/-- What the shell of a machine left behind. -/
def ofMachine (m : Machine) : Run :=
  let written (fd : Nat) : Bytes :=
    (m.host.traffic.filter fun t => t.shell == m.shell.id && t.fd == fd).flatMap Transfer.data
  { store := m.host.store, output := written 1, errors := written 2 }

end Run

/-! ### Running the shell -/

/-- Records the end of a session. -/
def endSession (m : Machine) (failure : Option Failure) : Machine :=
  m.record (.sessionEnd (failure.map Failure.message))

/-- Runs a single line. -/
def exec (a : Application) (fuel : Nat) (line definitions : Bytes) : Option Run :=
  let (context, m) := (a.machine.record (.sessionStart "exec")).openContext false none none []
  (m.runLine fuel (some context) line definitions).map fun (o, m) =>
    let r := Run.ofMachine (endSession m o.failure)
    if o.failure.isSome then r.failSilently else r

/-- Runs the console until its input ends. -/
def runConsole (m : Machine) (fuel : Nat) (context : Context) : Option Run :=
  (m.load fuel (some context) Source.consoleName []).map fun (o, m) =>
    let r := Run.ofMachine (endSession m o.failure)
    match o.failure with
    | none => r
    | some .cancelled => r
    | some f => r.fail f.message

/-- Runs a script, if there is one, and then the console, if it is wanted. -/
def runScript (a : Application) (fuel : Nat) (script definitions : Bytes) (console : Bool) :
    Option Run :=
  let (context, m) := (a.machine.record (.sessionStart script)).openContext false none none []
  let rest (m : Machine) : Option Run :=
    if console then runConsole m fuel context else some (Run.ofMachine (endSession m none))
  if script.isEmpty then rest m
  else match m.load fuel (some context) script definitions with
    | none => none
    | some (o, m) =>
      if o.failure.isSome then some (Run.ofMachine (endSession m o.failure)).failSilently else rest m

/-- Runs the script and the console that the command line and the configuration ask for. -/
def run (a : Application) (fuel : Nat) (w : Words) : Option Run :=
  let settings := (a.configuration.map Configuration.settings).getD {}
  let given := (w.value? definitionsFlag.name).getD []
  let script := w.arguments.head?.getD settings.startupScript
  let definitions := if given.isEmpty then settings.definitions else given
  runScript a fuel script definitions (!w.isOn noConsoleFlag.name)

/-! ### Listing, logs and recordings -/

/-- One line for each command of the shell: its name and the names of its parameters. -/
def commandLines : Bytes :=
  CommandTable.standard.commands.flatMap fun c =>
    let words := c.signature.name :: c.signature.parameters.map Parameter.name
    (Bytes.trim (Bytes.join [Ascii.space] words)).line

/-- Makes a configuration. -/
def setUp (p : Startup) (o : GlobalOptions) (store : FileStore) : Run :=
  match Configuration.setUp store o.config p.key with
  | (.ok _, store, log) => { store, errors := log }
  | (.error f, store, log) => Run.fail { store, errors := log } f.message

/-- The notice about a configuration that is not there. -/
def missingNotice : Bytes := Bytes.line "Couldn't load config: did you run init?"

/-- The diagnostic for an event log that is not made of events. -/
def badLog : Bytes := "malformed event log"

/-- Reads all of an open file. -/
def readOpen (store : FileStore) (path : Bytes) (f : OpenFile) : Except FileFault Bytes :=
  match f.read store (f.remaining store + 1) with
  | (.ok data, _) => .ok data
  | (.error (.file fault), _) => .error { fault with path }
  | (.error _, _) => .ok []

/-- The text of the event log. -/
def readLog (c : Configuration) (store : FileStore) : Except FileFault Bytes :=
  match c.perform store [c.readLogRequest] with
  | (.error f, _) => .error f
  | (.ok (.handle f), store) => readOpen store (Path.join [c.directory, c.settings.eventLog]) f
  | (.ok _, _) => .ok []

/-- Sums up the event log. -/
def report (o : GlobalOptions) (store : FileStore) : Run :=
  let r : Run := { store }
  match Configuration.load store o.config with
  | .error f => { r with log := if f.isMissing then missingNotice else [] }.fail f.message
  | .ok c =>
    match readLog c store with
    | .error f => r.fail f.message
    | .ok text =>
      let log := LogReading.ofBytes text
      if log.sound then { r with output := (Yaml.render (Report.ofEntries log.entries).json).line }
      else r.fail badLog

/-- The format of a recording by the ending of its name. -/
def formatOf? (name : Bytes) : Option Recording.Format :=
  let ending := name.reverse.takeWhile fun c => c != Ascii.dot && c != Ascii.slash
  let isEnding := name.reverse[ending.length]? == some Ascii.dot
  [Recording.Format.asciicast, .uml].find? fun f => isEnding && f.extension == ending.reverse

/-- The diagnostic for a name that does not tell the format of a recording. -/
def unknownFormat (name : Bytes) : Bytes :=
  ("unknown recording type " : Bytes) ++ name.quoted ++ ", expected ." ++
    Recording.Format.asciicast.extension ++ " or ." ++ Recording.Format.uml.extension

/-- The diagnostic for a recording that cannot be played to its end. -/
def playFault : Recording.PlayFault → Bytes
  | .full => FileReason.diskFull.message
  | .line f => f.message?.getD "malformed recording"

/-- Passes a recording on to a receiver. -/
def replay (store : FileStore) (name : Bytes) (receiver : Recording.Receiver) : Run :=
  let r : Run := { store }
  match store.perform (.open name) with
  | (.error f, _) => r.fail f.message
  | (.ok (.handle file), store) =>
    match formatOf? name with
    | none => r.fail (unknownFormat name)
    | some format =>
      match readOpen store name file with
      | .error f => r.fail f.message
      | .ok data =>
        let (_, fault, receiver) := Recording.play format data receiver
        let r := { r with output := receiver.bytes }
        match fault with
        | none => r
        | some f => r.fail (playFault f)
  | (.ok _, _) => r

/-! ### Tasks -/

/-- Starts the application and goes on with it. -/
def withApplication (p : Startup) (o : GlobalOptions) (store : FileStore)
    (next : Application → Option Run) : Option Run :=
  match Application.start p o store with
  | (.error message, store) => some (Run.fail { store } message)
  | (.ok a, _) => next a

/-- Does a task.  There is no answer when fuel runs out. -/
def perform (p : Startup) (fuel : Nat) (store : FileStore) (w : Words) (task : Task) : Option Run :=
  let o : GlobalOptions :=
    { config := (w.value? configFlag.name).getD [Ascii.dot], verbose := w.isOn verboseFlag.name }
  let name := w.arguments.headD []
  match task with
  | .help => some { store }
  | .run => withApplication p o store fun a => run a fuel w
  | .exec => withApplication p o store fun a =>
    exec a fuel (Bytes.join [Ascii.space] w.arguments) ((w.value? definitionsFlag.name).getD [])
  | .setUp => some (setUp p o store)
  | .commands => some { store, output := commandLines }
  | .report => some (report o store)
  | .play => some (replay store name (.display {}))
  | .display => some (replay store name (.display {}))
  | .convert => some (replay store name (.sink { format := .asciicast }))

/-- What follows the diagnostic for a word that names no task. -/
def helpHint : Bytes := Bytes.line (("Run '" : Bytes) ++ programName ++ " --help' for usage.")

/-- Runs the program on the files in a store.  There is no answer when fuel runs out. -/
def execute (p : Startup) (fuel : Nat) (store : FileStore) : Option Run :=
  let r : Run := { store }
  match Topic.find p.words with
  | .error word =>
    let r := r.fail (Topic.unknown word)
    some { r with errors := r.errors ++ helpHint }
  | .ok (topic, rest) =>
    match Words.parse (topic.allFlags ++ [helpFlag]) rest with
    | .error f => some (r.fail f.message)
    | .ok w =>
      if w.isOn helpFlag.name || topic.task = .help then some r
      else match topic.arity.fault? w.arguments.length with
        | some message => some (r.fail message)
        | none => perform p fuel store w topic.task

/-- A run with these words reads the standard input. -/
def readsInput (words : List Bytes) : Bool :=
  match Topic.find words with
  | .ok (topic, _) => topic.task = .run
  | .error _ => false

end CommandLine

end ConsoleShell
