/-
Probes.

A probe is a command that shows or changes one aspect of the shell that calls it.  Programs
that embed the shell register probes to watch it.
-/
import ConsoleShell.Shell.Routine

namespace ConsoleShell

/-- What a probe does. -/
inductive Probe where
  /-- Tells the program around the shell that it was called. -/
  | record
  /-- Prints its words. -/
  | echo
  /-- Prints something and fails. -/
  | fail
  | crash
  /-- Marks the line as failed. -/
  | mark
  /-- Writes to both output streams. -/
  | both
  /-- Writes to the target of a descriptor. -/
  | descriptor
  /-- Copies the input to the output. -/
  | copy
  /-- Prints whether the lines come from a console. -/
  | interactive
  /-- Prints the name, the working directory, the suspension and the number of sessions. -/
  | state
  /-- Removes a definition. -/
  | clear
  /-- Runs a line. -/
  | run
  deriving DecidableEq, Repr

namespace Probe

open Routine

/-- The probe with a given name; `record` for other names. -/
def ofName : String → Probe
  | "echoargs" => .echo
  | "fail" => .fail
  | "panic" => .crash
  | "panic_error" => .crash
  | "markerr" => .mark
  | "both" => .both
  | "fd" => .descriptor
  | "cat" => .copy
  | "interactive" => .interactive
  | "state" => .state
  | "clear_macro" => .clear
  | "run" => .run
  | _ => .record

/-- The word for a truth value. -/
def truth (b : Bool) : Bytes := if b then "true" else "false"

/-- The verdict for a failure of a stream or of an invocation. -/
def verdict : Option Failure → Verdict
  | some f => .failed f
  | none => .done

/-- Writes a text to the target of a descriptor. -/
def writeDescriptor (fd : Int) (text : Bytes) : Routine Verdict := do
  let answer : Option (Except StreamFault Unit) ← query (.writeDescriptor fd text)
  match answer with
  | none =>
    return .failed (.plain (("descriptor " : Bytes) ++ Bytes.ofInt fd ++ " isn't open"))
  | some (.error f) => return .failed (.stream f)
  | some (.ok ()) => return .done

/-- Copies the input to the output. -/
def copyInput : Routine Verdict := do
  let (data, fault) : Bytes × Option StreamFault ← query .readAll
  if !data.isEmpty then print data
  return verdict (fault.map Failure.stream)

/-- Prints the state of the shell. -/
def printState : Routine Unit := do
  let name : Bytes ← query .name
  let dir : Bytes ← query .workingDirectory
  let suspended : Bool ← query .isSuspended
  let sessions : List (Bytes × Bool) ← query .sessions
  printLine (Bytes.join " " [name, dir, truth suspended, Bytes.ofNat sessions.length])

/-- What a probe with a name, a text and a number does. -/
def body (p : Probe) (name text : Bytes) (n : Int) : CommandBody := fun args => do
  match p with
  | .record => query (.notify name args)
  | .echo => printLine (Bytes.join " " ((args.words? 0).getD []).tail)
  | .fail =>
    print "partial\n"
    return .failed (.plain text)
  | .crash => return .crashed text
  | .mark => query (.setErrored true)
  | .both =>
    printLine (("out:" : Bytes) ++ text)
    complain (("err:" : Bytes) ++ text)
  | .descriptor => return ← writeDescriptor n text
  | .copy => return ← copyInput
  | .interactive =>
    let scope : Option Scope ← query .scope
    printLine (truth (scope.any Scope.interactive))
  | .state => printState
  | .clear => query (.clearDefinition (args.string 0).1)
  | .run => return ← .run text [] fun o => .done (verdict o.failure)
  return .done

end Probe

end ConsoleShell
