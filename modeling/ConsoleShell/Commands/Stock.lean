/-
The stock commands: directories, text, time, the environment, the history, sessions and
listings of the table.
-/
import ConsoleShell.Commands.Flags
import ConsoleShell.Number.Numeral
import ConsoleShell.Shell.Routine
import ConsoleShell.Text.Escapes
import ConsoleShell.Time.Format

namespace ConsoleShell

namespace Commands

open Routine

/-! ### Directories, text and time -/

/-- Changes the working directory; a directory that is none is reported and ignored. -/
def changeDirectory : CommandBody := fun args => do
  let refused : Routine Unit := complain "Invalid directory path, ignored"
  match args.string? 0 with
  | none => refused
  | some dir =>
    let answer : Except FileFault Unit ← query (.changeDirectory dir)
    match answer with
    | .ok () => pure ()
    | .error _ => refused
  return .done

/-- Prints the working directory. -/
def printDirectory : CommandBody := fun _ => do
  let dir : Bytes ← query .workingDirectory
  printLine dir
  return .done

/-- Prints a text after replacing its escapes. -/
def echo : CommandBody := fun args => do
  printLine (Escapes.unescape (args.string 0).1)
  return .done

/-- Prints the current time. -/
def date : CommandBody := fun args => do
  let format := (args.string 0).1
  let now : Instant ← query .now
  match TimeFormat.format (if format.isEmpty then TimeFormat.default else format) now with
  | .error f => return .failed (.plain f.message)
  | .ok text =>
    printLine text
    return .done

/-- Writes a message to the event log. -/
def errorLog : CommandBody := fun args => do
  query (.record (.errorLog (args.string 0).1))
  return .done

/-- Waits for some seconds. -/
def sleep : CommandBody := fun args => do
  if (args.double 0).isNonPositive then return .done
  let finished : Bool ← query .pause
  if finished then return .done else return .failed .cancelled

/-! ### The environment -/

/-- The complaint about a variable that is not named. -/
def missingName : Routine Unit := complain "Missing environment variable name argument."

/-- Sets an environment variable, which also wins over definitions of its name. -/
def setEnvironment : CommandBody := fun args => do
  match args.string? 0, args.string? 1 with
  | none, _ => missingName; return .done
  | _, none => complain "Missing environment variable value argument."; return .done
  | some name, some value =>
    let answer : Except Environment.BadName Unit ← query (.setEnvironment name value)
    match answer with
    | .error f => return .failed (.plain f.message)
    | .ok () =>
      query (.clearDefinition name)
      return .done

/-- Removes an environment variable, and definitions of its name. -/
def unsetEnvironment : CommandBody := fun args => do
  match args.string? 0 with
  | none => missingName
  | some name =>
    query (.unsetEnvironment name)
    query (.clearDefinition name)
  return .done

/-- Prints one or all environment variables. -/
def showEnvironment : CommandBody := fun args => do
  let env : Environment ← query .environment
  match args.string? 0 with
  | none => each env.list printLine
  | some name =>
    match env.find? name with
    | some value => printLine (name ++ "=" ++ value)
    | none => printLine (name ++ " is not an environment variable.")
  return .done

/-- The configuration variables with their defaults. -/
def settings : List (String × String) :=
  [("EPICS_CA_ADDR_LIST", ""), ("EPICS_CA_CONN_TMO", "30.0"), ("EPICS_CA_AUTO_ADDR_LIST", "YES"),
   ("EPICS_CA_REPEATER_PORT", "5065"), ("EPICS_CA_SERVER_PORT", "5064"),
   ("EPICS_CA_MAX_ARRAY_BYTES", "16384"), ("EPICS_CA_AUTO_ARRAY_BYTES", "YES"),
   ("EPICS_CA_MAX_SEARCH_PERIOD", "300"), ("EPICS_CA_NAME_SERVERS", ""),
   ("EPICS_CA_MCAST_TTL", "1"), ("EPICS_CAS_INTF_ADDR_LIST", ""),
   ("EPICS_CAS_IGNORE_ADDR_LIST", ""), ("EPICS_CAS_AUTO_BEACON_ADDR_LIST", ""),
   ("EPICS_CAS_BEACON_ADDR_LIST", ""), ("EPICS_CAS_SERVER_PORT", ""),
   ("EPICS_CAS_BEACON_PERIOD", ""), ("EPICS_CAS_BEACON_PORT", ""),
   ("EPICS_BUILD_COMPILER_CLASS", ""), ("EPICS_BUILD_OS_CLASS", ""),
   ("EPICS_BUILD_TARGET_ARCH", ""), ("EPICS_TZ", "CST6CDT,M3.2.0/2,M11.1.0/2"),
   ("EPICS_TS_NTP_INET", ""), ("EPICS_IOC_IGNORE_SERVERS", ""), ("EPICS_IOC_LOG_PORT", "7004"),
   ("EPICS_IOC_LOG_INET", ""), ("EPICS_IOC_LOG_FILE_LIMIT", "1000000"),
   ("EPICS_IOC_LOG_FILE_NAME", ""), ("EPICS_IOC_LOG_FILE_COMMAND", ""),
   ("EPICS_CMD_PROTO_PORT", ""), ("EPICS_AR_PORT", "7002")]

/-- Prints the configuration variables; an empty value counts as undefined. -/
def showSettings : CommandBody := fun _ => do
  let env : Environment ← query .environment
  each settings fun (name, default) =>
    let name := Bytes.ofString name
    let value := (env.find? name).getD default
    printLine (if value.isEmpty then name ++ " is undefined" else name ++ ": " ++ value)
  return .done

/-! ### The history -/

/-- The flag that asks for help. -/
def helpFlag : Flag := ⟨'h', "help", "show this help and exit"⟩

/-- The flags of the history command. -/
def historyFlags : List Flag := [⟨'c', [], "clear the history"⟩, helpFlag]

/-- Prints how the history command is used. -/
def historyHelp : Routine Unit := do
  print "usage: "
  printLine "history [-c] [count]"
  printLine "Display the command history, or the last count entries."
  printLine []
  printLine "Flags:"
  each (Flag.describe historyFlags) printLine

/-- Prints the last lines of the history, as many as a word says. -/
def showHistory (h : History) (count : Option Bytes) : Routine Verdict :=
  let limit : Option Int := match count with
    | none => some 0
    | some word =>
      match Numeral.parseDecimal word with
      | .ok n => if n < 0 then none else some n
      | .error _ => none
  match limit with
  | none => .done (.failed (.plain (count.getD [] ++ ": numeric argument required")))
  | some limit => do
    each (h.recent limit) fun e =>
      printLine ((Bytes.ofInt e.number).padStart 5 Ascii.space ++ "  " ++ e.text)
    return .done

/-- Prints or clears the history. -/
def history : CommandBody := fun args => do
  let words := (args.words? 0).getD []
  match Flag.parse historyFlags [] words.tail with
  | .error f =>
    query (.record (.invalidInvocation words f.message))
    query (.write .error (("error: " : Bytes) ++ f.message ++ "\n\n"))
    historyHelp
    query (.setErrored true)
    return .done
  | .ok flags =>
    if flags.isOn 'h' then
      historyHelp
      return .done
    let history : Option History ← query .history
    match history with
    | none => return .failed (.plain "history isn't enabled")
    | some h =>
      if flags.isOn 'c' then
        query .clearHistory
        return .done
      showHistory h flags.rest.head?

/-! ### Sessions and the table -/

/-- A text padded with blanks to the width of the first column of a listing. -/
def column (text : Bytes) : Bytes :=
  text ++ Bytes.replicate (24 - text.charCount) Ascii.space ++ [Ascii.space]

/-- The named sessions that exist, with a complaint about each that does not. -/
def findSessions (all : List (Bytes × Bool)) : List Bytes → Routine (List (Bytes × Bool))
  | [] => .done []
  | name :: names => do
    match all.find? fun s => s.1 == name with
    | some s => return s :: (← findSessions all names)
    | none =>
      complain (("\t'" : Bytes) ++ name ++ "' is not a known thread name")
      findSessions all names

/-- Lists all or some sessions with their states; a level in front is ignored. -/
def showSessions : CommandBody := fun args => do
  let names := ((args.words? 0).getD []).tail
  let names := match names with
    | (45 :: _) :: rest => rest
    | _ => names
  let all : List (Bytes × Bool) ← query .sessions
  let shown ← if names.isEmpty then pure all else findSessions all names
  if shown.isEmpty then return .done
  printLine (column "NAME" ++ "STATE")
  each shown fun (name, suspended) =>
    printLine (column name ++ (if suspended then "SUSPENDED" else "OK"))
  return .done

/-- Resumes suspended sessions. -/
def resumeSessions : CommandBody := fun args => do
  each ((args.words? 0).getD []).tail fun name => do
    let answer : Option Bool ← query (.resume name)
    match answer with
    | none => complain (("'" : Bytes) ++ name ++ "' is not a valid thread name")
    | some true => pure ()
    | some false => complain (("Thread " : Bytes) ++ name ++ " is not suspended")
  return .done

/-- Lists every command and variable of the table by domain. -/
def dumpRegistry : CommandBody := fun _ => do
  let commands : List Signature ← query .commands
  let vars : List Variable ← query .vars
  each commands fun s => printLine (Table.commandDomain ++ " " ++ s.name)
  each vars fun v => printLine (Table.variableDomain ++ " " ++ v.name)
  return .done

/-! ### The commands -/

/-- The stock commands in the order of their names. -/
def stock : List (Command CommandBody) :=
  [⟨⟨"cd", [⟨"directory name", .path⟩], []⟩, changeDirectory⟩,
   ⟨⟨"date", [⟨"format", .string⟩],
      ("Print the current time.\n" : Bytes) ++
        "  format - strftime format, %0<n>f prints n digits of the fraction of the second\n"⟩,
      date⟩,
   ⟨⟨"echo", [⟨"string", .string⟩], []⟩, echo⟩,
   ⟨⟨"epicsEnvSet", [⟨"name", .string⟩, ⟨"value", .string⟩], []⟩, setEnvironment⟩,
   ⟨⟨"epicsEnvShow", [⟨"[name]", .string⟩], []⟩, showEnvironment⟩,
   ⟨⟨"epicsEnvUnset", [⟨"name", .string⟩], []⟩, unsetEnvironment⟩,
   ⟨⟨"epicsParamShow", [], []⟩, showSettings⟩,
   ⟨⟨"epicsPrtEnvParams", [], []⟩, showSettings⟩,
   ⟨⟨"epicsThreadResume", [⟨"[thread ...]", .words⟩],
      ("Resume sessions suspended by 'on error halt'.\n" : Bytes) ++
        "  [thread ...] - session names, see epicsThreadShow\n"⟩, resumeSessions⟩,
   ⟨⟨"epicsThreadShow", [⟨"[-level] [thread ...]", .words⟩],
      ("List the console sessions and whether they're suspended.\n" : Bytes) ++
        "  [-level] - accepted for compatibility\n" ++
        "  [thread ...] - session names, all sessions if omitted\n"⟩, showSessions⟩,
   ⟨⟨"epicsThreadSleep", [⟨"seconds", .double⟩], []⟩, sleep⟩,
   ⟨⟨"errlog", [⟨"message", .string⟩], []⟩, errorLog⟩,
   ⟨⟨"history", [⟨"[-c] [count]", .words⟩], []⟩, history⟩,
   ⟨⟨"pwd", [], []⟩, printDirectory⟩,
   ⟨⟨"registryDump", [], []⟩, dumpRegistry⟩]

end Commands

end ConsoleShell
