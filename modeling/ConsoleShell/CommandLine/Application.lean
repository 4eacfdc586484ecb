/-
What the shells that the program starts work with.

The program takes its environment from the process, and its event log and its history from
the configuration.  Without a configuration there is neither of them.
-/
import ConsoleShell.Commands.Standard
import ConsoleShell.Configuration.Load
import ConsoleShell.Shell.Interpreter

namespace ConsoleShell

namespace CommandLine

/-- What the program is started with. -/
structure Startup where
  /-- The words after the name of the program. -/
  words : List Bytes
  environment : List Bytes := []
  input : Bytes := []
  clock : Instant := ⟨0, 0⟩
  /-- The time that is written with events. -/
  stamp : Bytes := []
  /-- The identifier of the session. -/
  session : Bytes := []
  /-- The text of the key that a new configuration gets. -/
  key : Bytes := []
  deriving DecidableEq, Repr

/-- The shell of the program, and the configuration if there is one. -/
structure Application where
  configuration : Option Configuration := none
  machine : Machine

/-- Where the configuration is looked for, and whether warnings are shown. -/
structure GlobalOptions where
  config : Bytes := [Ascii.dot]
  verbose : Bool := false
  deriving DecidableEq, Repr

/-- What a history file without lines begins with. -/
def historyMark : Bytes := Bytes.line "history"

/-- The diagnostic for a history file that holds something else. -/
def badHistory : Bytes := "invalid database"

namespace Application

/-- The name of the shell of the program among the sessions. -/
def sessionName : Bytes := "_main_"

/-- The shell of the program without a configuration. -/
def bare (p : Startup) (o : GlobalOptions) (store : FileStore) : Machine where
  shell :=
    { name := sessionName, session := some p.session, directory := store.directory,
      guard := .session false, input := p.input }
  host :=
    { table := .standard, environment := .ofList p.environment, store, clock := p.clock,
      stamp := p.stamp, verbose := o.verbose }

/-- Sets the prompt unless the environment has one. -/
def setPrompt (prompt : Bytes) (m : Machine) : Machine :=
  if prompt.isEmpty || (m.host.environment.find? promptVariable).isSome then m
  else match m.host.environment.set promptVariable prompt with
    | .ok e => m.setEnvironment e
    | .error _ => m

/-- Opens the event log. -/
def openLog (c : Configuration) (m : Machine) : Except FileFault Machine × FileStore :=
  match c.perform m.host.store [c.logRequest] with
  | (.error f, store) => (.error f, store)
  | (.ok (.handle f), store) =>
    let (h, m) := Machine.keep { m with host := { m.host with store } } f
    (.ok { m with host := { m.host with eventLog := some h } }, store)
  | (.ok _, store) => (.ok m, store)

/-- Opens the history, which is made if it is not there. -/
def openHistory (path : Bytes) (m : Machine) : Except Bytes Machine × FileStore :=
  let flags : OpenFlags := { readWrite := true, create := true }
  match m.host.store.perform (.openFile path flags) with
  | (.error f, store) => (.error f.message, store)
  | (.ok _, store) =>
    let store := if (store.contents path).isEmpty then store.write (store.key path) 0 historyMark
      else store
    if (store.contents path).startsWith historyMark then
      (.ok { m with host := { m.host with store, history := some {} } }, store)
    else (.error badHistory, store)

/-- The application with a configuration. -/
def configured (c : Configuration) (m : Machine) : Except Bytes Application × FileStore :=
  match openLog c (setPrompt c.settings.prompt m) with
  | (.error f, store) => (.error f.message, store)
  | (.ok m, store) =>
    let path := c.historyPath
    if path.isEmpty then (.ok { configuration := some c, machine := m }, store)
    else match openHistory path m with
      | (.error message, store) => (.error message, store)
      | (.ok m, store) => (.ok { configuration := some c, machine := m }, store)

/-- Sets up the application; a configuration that is not there is done without. -/
def start (p : Startup) (o : GlobalOptions) (store : FileStore) :
    Except Bytes Application × FileStore :=
  let m := bare p o store
  match Configuration.load store o.config with
  | .ok c => configured c m
  | .error f => if f.isMissing then (.ok { machine := m }, store) else (.error f.message, store)

end Application

end CommandLine

end ConsoleShell
