/-
Error policies and scopes.

An invocation that does not read from a console has a policy for lines that fail.  The
state of one invocation is its scope; nested invocations form a stack of scopes.
-/
import ConsoleShell.Number.Double

namespace ConsoleShell

/-- What an invocation does before it reads the line after one that failed. -/
inductive Policy where
  /-- Carries on with the next line. -/
  | proceed
  /-- Ends the invocation as failed. -/
  | stop
  /-- Suspends the invocation, until it is resumed or for a fixed time. -/
  | suspend
  deriving DecidableEq, Repr

namespace Policy

/-- The word for a policy in diagnostics. -/
def label : Policy → Bytes
  | .proceed => "continue"
  | .stop => "break"
  | .suspend => "halt"

/-- The policy with a given number. -/
def ofCode? : Int → Option Policy
  | 0 => some .proceed
  | 1 => some .stop
  | 2 => some .suspend
  | _ => none

/-- The word for the policy with a given number, which may denote none. -/
def describe (code : Int) : Bytes :=
  match ofCode? code with
  | some p => p.label
  | none => ("OnError(" : Bytes) ++ Bytes.ofInt code ++ ")"

end Policy

/-- The state of one invocation. -/
structure Scope where
  policy : Policy := .proceed
  /-- How long to wait when suspended, in seconds; until resumed unless positive and finite. -/
  timeout : Double := .zero false
  /-- The latest line failed. -/
  errored : Bool := false
  /-- The invocation reads from a console. -/
  interactive : Bool := false
  deriving DecidableEq, Repr

/-- A suspension ends by itself after the timeout. -/
def Scope.isTimed (s : Scope) : Bool := !(s.timeout.isNonPositive || s.timeout.isInfinite)

end ConsoleShell
