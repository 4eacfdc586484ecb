/-
Failures of invocations and commands.
-/
import ConsoleShell.File.Handle

namespace ConsoleShell

/-- The class of a diagnostic. -/
inductive ErrorKind where
  /-- A line cannot be split or its references cannot be replaced. -/
  | malformed
  /-- No command has the name. -/
  | unknownCommand
  /-- A word is no value of the kind declared for it. -/
  | badArgument
  /-- A script or the target of a redirection cannot be opened. -/
  | inputOutput
  /-- A command failed or crashed. -/
  | command
  /-- The invocation cannot start. -/
  | resource
  /-- A number that denotes no class. -/
  | unknown (code : Int)
  deriving DecidableEq, Repr

namespace ErrorKind

/-- The class with a given number. -/
def ofCode (code : Int) : ErrorKind :=
  match code with
  | 1 => .malformed
  | 2 => .unknownCommand
  | 3 => .badArgument
  | 4 => .inputOutput
  | 5 => .command
  | 6 => .resource
  | n => .unknown n

/-- The number of a class. -/
def code : ErrorKind → Int
  | .malformed => 1
  | .unknownCommand => 2
  | .badArgument => 3
  | .inputOutput => 4
  | .command => 5
  | .resource => 6
  | .unknown n => n

/-- The class in words. -/
def label : ErrorKind → Bytes
  | .malformed => "syntax error"
  | .unknownCommand => "lookup error"
  | .badArgument => "type error"
  | .inputOutput => "i/o error"
  | .command => "runtime error"
  | .resource => "resource error"
  | .unknown n => ("Kind(" : Bytes) ++ Bytes.ofInt n ++ ")"

end ErrorKind

/-- Where a line comes from: the name of its script, empty for lines that are typed or given
one by one, and its number. -/
structure Location where
  file : Bytes := []
  line : Int := 0
  deriving DecidableEq, Repr

/-- The location as it is shown before a diagnostic. -/
def Location.text (l : Location) : Bytes := l.file ++ " line " ++ Bytes.ofInt l.line ++ ":"

/-- A diagnostic with its class and the line it is about. -/
structure Diagnostic where
  kind : ErrorKind
  location : Location
  message : Bytes
  deriving DecidableEq, Repr

/-- The diagnostic in words. -/
def Diagnostic.text (d : Diagnostic) : Bytes :=
  if d.location.file.isEmpty then d.message else d.location.text ++ " " ++ d.message

/-- Why an invocation or a command failed. -/
inductive Failure where
  /-- A line failed under the policy that stops. -/
  | stopped
  /-- A line failed under the policy that suspends. -/
  | suspended
  /-- The context was cancelled. -/
  | cancelled
  /-- The invocation could not start. -/
  | setup (kind : ErrorKind) (message : Bytes)
  /-- A stream failed. -/
  | stream (fault : StreamFault)
  /-- A command failed, in its own words. -/
  | plain (message : Bytes)
  deriving DecidableEq, Repr

/-- The failure in words. -/
def Failure.message : Failure → Bytes
  | .stopped => "iocsh Error: Break"
  | .suspended => "iocsh Error: Halt"
  | .cancelled => "context canceled"
  | .setup _ message => message
  | .stream f => f.message
  | .plain message => message

/-- How a command ends. -/
inductive Verdict where
  | done
  | failed (failure : Failure)
  /-- The command crashed with a value. -/
  | crashed (cause : Bytes)
  deriving DecidableEq, Repr

/-- How an invocation ends: whether its latest line failed, and why it failed as a whole. -/
structure Outcome where
  errored : Bool
  failure : Option Failure
  deriving DecidableEq, Repr

end ConsoleShell
