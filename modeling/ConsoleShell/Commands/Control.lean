/-
Commands that control the interpreter itself.

They are part of every table: comments, leaving an invocation, running lines and scripts,
error policies, and help.
-/
import ConsoleShell.Number.DoubleReader
import ConsoleShell.Shell.Interpreter

namespace ConsoleShell

namespace Commands

open Routine

/-- The signature of a command whose only argument is the rest of the line. -/
def wordsSignature (name parameter usage : Bytes) : Signature :=
  ⟨name, [⟨parameter, .words⟩], usage⟩

/-- Does nothing. -/
def nothing : CommandBody := fun _ => .done .done

/-! ### Running lines -/

/-- Marks the line as failed if an invocation failed. -/
def markFailed (failed : Bool) : Routine Verdict := do
  if failed then query (.setErrored true)
  return .done

/-- Runs a line; nothing if none is given. -/
def runLine : CommandBody := fun args =>
  match args.string? 0 with
  | none => .done .done
  | some line => .run line [] fun o => markFailed o.failure.isSome

/-- Runs a line with definitions; nothing if no line is given. -/
def runWithDefinitions : CommandBody := fun args =>
  match args.string? 0 with
  | none => .done .done
  | some line => .run line (args.string 1).1 fun o => markFailed o.failure.isSome

/-- Runs a script with definitions. -/
def loadScript : CommandBody := fun args =>
  .load (args.string 0).1 (args.string 1).1 fun o => markFailed (o.errored || o.failure.isSome)

/-! ### Error policies -/

/-- How the command for error policies is used. -/
def onUsage : Bytes := "Usage: on error [continue | break | halt | wait <delay>]"

/-- How long to wait if the given time cannot be read. -/
def waitFallback : Double := .ofInt 5

/-- Sets the time to wait after a failed line. -/
def setWait (value : Option Bytes) : Routine Unit := do
  query (.setPolicy .suspend)
  match value with
  | none => complain onUsage
  | some text =>
    match Double.parse text with
    | .ok seconds => query (.setTimeout seconds)
    | .error _ =>
      complain (("Unable to parse 'on error wait' time " : Bytes) ++ text)
      query (.setTimeout waitFallback)

/-- Sets the error policy named by a word, with the word after it. -/
def setPolicy (word : Bytes) (value : Option Bytes) : Routine Unit := do
  -- errors before the policy changes do not count
  query (.setErrored false)
  if word == "continue" then query (.setPolicy .proceed)
  else if word == "break" then query (.setPolicy .stop)
  else if word == "halt" then
    query (.setPolicy .suspend)
    query (.setTimeout (.zero false))
  else if word == "wait" then setWait value
  else
    complain onUsage
    query (.setErrored true)

/-- Changes the error policy of the current invocation. -/
def on : CommandBody := fun args => do
  let scope : Option Scope ← query .scope
  match scope with
  | none => return .done
  | some scope =>
    match (args.words? 0).getD [] with
    | _ :: what :: word :: rest =>
      if what != "error" then complain onUsage
      else if scope.interactive then complain "Interactive shell ignores  on error ..."
      else setPolicy word rest.head?
    | _ => complain onUsage
    return .done

/-! ### Help -/

/-- How wide a row of the listing may be. -/
def helpWidth : Nat := 79

/-- The column after which a row of the listing is full. -/
def helpFull : Nat := 64

/-- The distance between the columns of the listing. -/
def helpColumn : Nat := 16

/-- The pieces of the listing of command names from a column on. -/
def listing : Nat → List Bytes → List Bytes
  | column, [] => if column = 0 then [] else [[Ascii.newline]]
  | column, name :: names =>
    let wraps := helpWidth ≤ name.length + column
    let before : List Bytes := if wraps then [[Ascii.newline]] else []
    let column := (if wraps then 0 else column) + name.length
    if helpFull ≤ column then before ++ name :: [Ascii.newline] :: listing 0 names
    else
      let pad := helpColumn - column % helpColumn
      before ++ name :: Bytes.replicate pad Ascii.space :: listing (column + pad) names

/-- A parameter in the description of a command. -/
def parameterUsage (p : Parameter) : Bytes :=
  if p.kind = .words || !p.name.contains Ascii.space then [Ascii.space] ++ p.name
  else (" '" : Bytes) ++ p.name ++ "'"

/-- The pieces of the description of a command. -/
def description (colored : Bool) (s : Signature) : List Bytes :=
  let head : List Bytes := if s.usage.isEmpty then [] else [("\nUsage: " : Bytes)]
  let tail : List Bytes := if s.usage.isEmpty then [] else [[Ascii.newline] ++ s.usage]
  head ++ Interpreter.styled colored "1" s.name ++ s.parameters.map parameterUsage ++
    [[Ascii.newline]] ++ tail

/-- Lists the names of commands, or describes the commands whose names match patterns. -/
def help : CommandBody := fun args => do
  let signatures : List Signature ← query .commands
  match (args.words? 0).getD [] with
  | _ :: pattern :: patterns =>
    let colored : Bool ← query .isColored
    let described := (pattern :: patterns).flatMap fun p =>
      signatures.filter fun s => Glob.isMatch p s.name
    each (described.flatMap (description colored)) print
  | _ =>
    each (listing 0 (signatures.map Signature.name)) print
    print "\nType 'help <command>' to see the arguments of <command>.  eg. 'help db*'\n"
  return .done

/-! ### The commands -/

/-- The commands of every table. -/
def control : List (Command CommandBody) :=
  [⟨wordsSignature "#" "newline-terminated comment" "", nothing⟩,
   ⟨⟨"exit", [], "Return to caller.\n"⟩, nothing⟩,
   ⟨wordsSignature "help" "[command ...]"
      (("With no arguments, list available command names.\n" : Bytes) ++
        "With arguments, list arguments and usage for command(s).\n" ++
        "Command names may contain wildcards\n"), help⟩,
   ⟨⟨"iocshCmd", [⟨"command", .string⟩],
      ("Takes a single shell command and executes it\n" : Bytes) ++
        "  * Stops at the first error, like 'on error break'\n"⟩, runLine⟩,
   ⟨⟨"iocshLoad", [⟨"pathname", .path⟩, ⟨"macros", .string⟩],
      ("Execute shell commands provided in file from first parameter\n" : Bytes) ++
        "  * (optional) replace macros within the file with provided values\n"⟩, loadScript⟩,
   ⟨⟨"iocshRun", [⟨"command", .string⟩, ⟨"macros", .string⟩],
      ("Takes a single shell command, replaces macros and executes it\n" : Bytes) ++
        "  * Stops at the first error, like 'on error break'\n"⟩, runWithDefinitions⟩,
   ⟨wordsSignature "on" "'error' 'continue' | 'break' | 'wait' [value] | 'halt'"
      (("Change shell error handling.\n" : Bytes) ++
        "  continue (default) - Ignores error and continue with next commands.\n" ++
        "  break - Return to caller without executing futher commands.\n" ++
        "  halt - Suspend process.\n" ++
        "  wait - stall process for [value] seconds, the continue.\n"), on⟩]

end Commands

end ConsoleShell
