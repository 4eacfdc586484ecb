/-
The command that shows and sets variables.
-/
import ConsoleShell.Number.Decimal
import ConsoleShell.Number.DoubleReader
import ConsoleShell.Shell.Routine

namespace ConsoleShell

namespace Commands

open Routine

/-- Prints the value of a variable. -/
def printVariable (v : Variable) : Routine Unit := do
  let value : Option CellValue ← query (.cell v.storage)
  match value with
  | some (.int n) => printLine (v.name ++ " = " ++ Bytes.ofInt n)
  | some (.double x) => printLine (v.name ++ " = " ++ x.toSixDigits)
  | none => return

/-- Sets the value of a variable from a text, which must be a number of its type. -/
def assignVariable (v : Variable) (text : Bytes) : Routine Unit :=
  match v.storage with
  | .int _ =>
    match Numeral.parseSigned text with
    | .ok n => query (.setCell v.storage (.int n))
    | .error _ =>
      complain (("Invalid integer value. Var " : Bytes) ++ v.name ++ " not changed.")
  | .double _ =>
    match Double.parse text with
    | .ok x => query (.setCell v.storage (.double x))
    | .error _ =>
      complain (("Invalid double value. Var " : Bytes) ++ v.name ++ " not changed.")
  | _ => .done ()

/-- Shows all variables or those that match a pattern, or sets one variable. -/
def var : CommandBody := fun args => do
  match args.string? 1 with
  | none =>
    let pattern := args.string? 0
    let all : List Variable ← query .vars
    let shown := all.filter fun v => pattern.all fun p => Glob.isMatch p v.name
    each shown printVariable
    match pattern with
    | some p =>
      if shown.isEmpty then complain (("No var matching " : Bytes) ++ p ++ " found.")
    | none => pure ()
  | some text =>
    let name := (args.string 0).1
    let found : Option Variable ← query (.findVariable name)
    match found with
    | none => complain (("Var " : Bytes) ++ name ++ " not found.")
    | some v => assignVariable v text
  return .done

end Commands

end ConsoleShell
