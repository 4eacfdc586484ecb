/-
What commands do.

A command is a routine: it ends with a verdict, or asks its shell for something and goes
on with the answer.  A routine is a value that performs nothing by itself, so that
statements about all commands can be proved by induction on it.
-/
import ConsoleShell.Environment
import ConsoleShell.Event
import ConsoleShell.History
import ConsoleShell.Shell.Failure
import ConsoleShell.Shell.Scope
import ConsoleShell.Shell.Streams
import ConsoleShell.Table
import ConsoleShell.Time.Instant

namespace ConsoleShell

/-- The value of a variable. -/
inductive CellValue where
  | int (value : Int)
  | double (value : Double)
  deriving DecidableEq, Repr

/-- What a command can ask of its shell, apart from running lines. -/
inductive Query where
  /-- Writes to an output stream. -/
  | write (stream : Output) (text : Bytes)
  /-- Reads the input stream to its end. -/
  | readAll
  /-- Writes to the target that the line redirects a descriptor to. -/
  | writeDescriptor (fd : Int) (text : Bytes)
  /-- Whether text may be coloured. -/
  | isColored
  /-- The name of the shell. -/
  | name
  | workingDirectory
  | changeDirectory (dir : Bytes)
  | environment
  | setEnvironment (name value : Bytes)
  | unsetEnvironment (name : Bytes)
  /-- Removes a name from every scope of definitions. -/
  | clearDefinition (name : Bytes)
  /-- Records an event. -/
  | record (event : Event)
  /-- The declarations of all commands. -/
  | commands
  /-- All variables. -/
  | vars
  /-- The variable with a name. -/
  | findVariable (name : Bytes)
  /-- The value that is kept in a storage. -/
  | cell (storage : Storage)
  /-- Changes the value that is kept in a storage. -/
  | setCell (storage : Storage) (value : CellValue)
  | history
  | clearHistory
  /-- The sessions in the order of their names, each with whether it is suspended. -/
  | sessions
  /-- Resumes the session with a name; false if it is not suspended. -/
  | resume (name : Bytes)
  /-- This shell is suspended. -/
  | isSuspended
  /-- The scope of the innermost invocation. -/
  | scope
  /-- Changes the policy of the innermost invocation. -/
  | setPolicy (policy : Policy)
  /-- Changes the timeout of the innermost invocation. -/
  | setTimeout (seconds : Double)
  /-- Sets or clears the mark that the latest line failed. -/
  | setErrored (errored : Bool)
  /-- The current time. -/
  | now
  /-- Waits; false if the context is cancelled meanwhile. -/
  | pause
  /-- Tells the program around the shell that a command was called. -/
  | notify (name : Bytes) (arguments : Arguments)

/-- The type of the answer to a query. -/
def Query.Answer : Query → Type
  | .write _ _ => Unit
  | .readAll => Bytes × Option StreamFault
  | .writeDescriptor _ _ => Option (Except StreamFault Unit)
  | .isColored => Bool
  | .name => Bytes
  | .workingDirectory => Bytes
  | .changeDirectory _ => Except FileFault Unit
  | .environment => Environment
  | .setEnvironment _ _ => Except Environment.BadName Unit
  | .unsetEnvironment _ => Unit
  | .clearDefinition _ => Unit
  | .record _ => Unit
  | .commands => List Signature
  | .vars => List Variable
  | .findVariable _ => Option Variable
  | .cell _ => Option CellValue
  | .setCell _ _ => Unit
  | .history => Option History
  | .clearHistory => Unit
  | .sessions => List (Bytes × Bool)
  | .resume _ => Option Bool
  | .isSuspended => Bool
  | .scope => Option Scope
  | .setPolicy _ => Unit
  | .setTimeout _ => Unit
  | .setErrored _ => Unit
  | .now => Instant
  | .pause => Bool
  | .notify _ _ => Unit

/-- A computation that asks a shell. -/
inductive Routine (α : Type) where
  | done (result : α)
  | ask (query : Query) (next : query.Answer → Routine α)
  /-- Runs a line in an invocation of its own, with definitions. -/
  | run (line definitions : Bytes) (next : Outcome → Routine α)
  /-- Runs a script, or the console, in an invocation of its own, with definitions. -/
  | load (path definitions : Bytes) (next : Outcome → Routine α)

namespace Routine

variable {α β : Type}

/-- One routine after another. -/
def bind (r : Routine α) (f : α → Routine β) : Routine β :=
  match r with
  | .done a => f a
  | .ask q k => .ask q fun a => (k a).bind f
  | .run line defs k => .run line defs fun o => (k o).bind f
  | .load path defs k => .load path defs fun o => (k o).bind f

instance : Monad Routine where
  pure := .done
  bind := bind

/-- Asks a query and answers what the shell answers. -/
def query (q : Query) : Routine q.Answer := .ask q .done

/-- Writes to the standard output. -/
def print (text : Bytes) : Routine Unit := query (.write .standard text)

/-- Writes a line to the standard output. -/
def printLine (text : Bytes) : Routine Unit := print text.line

/-- Writes a line to the error output. -/
def complain (text : Bytes) : Routine Unit := query (.write .error text.line)

/-- Does something for each element of a list, in order. -/
def each (xs : List α) (f : α → Routine Unit) : Routine Unit :=
  match xs with
  | [] => .done ()
  | x :: xs => (f x).bind fun _ => each xs f

end Routine

/-- What a command does with its arguments. -/
abbrev CommandBody := Arguments → Routine Verdict

/-- The table of commands and variables of a process. -/
abbrev CommandTable := Table CommandBody

end ConsoleShell
