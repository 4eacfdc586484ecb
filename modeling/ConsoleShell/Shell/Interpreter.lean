/-
The interpreter.

An invocation reads lines from a script, from the console or from a single given line.
Each line has its references replaced, is split, and is dispatched to a command of the
table, which may start further invocations.  The number of lines and nested invocations
is bounded by fuel; nothing is returned when it runs out.
-/
import ConsoleShell.DefinitionList
import ConsoleShell.LineEditor.Terminal
import ConsoleShell.Shell.Completion
import ConsoleShell.Shell.Redirects
import ConsoleShell.Number.Decimal

namespace ConsoleShell

/-- An action on a machine, which has no result when it runs out of fuel. -/
abbrev ShellM (σ : Type) := StateT (Machine σ) Option

/-- Where an invocation reads its lines. -/
inductive Source where
  /-- A single line. -/
  | line (text : Bytes)
  | console
  | script (path : Bytes)
  deriving DecidableEq, Repr

namespace Source

/-- The path that stands for the console. -/
def consoleName : Bytes := "<telnet>"

/-- The source with a path; the empty path stands for the console, too. -/
def ofPath (path : Bytes) : Source :=
  if path.isEmpty || path == consoleName then .console else .script path

/-- The scope of an invocation that begins to read. -/
def scope : Source → Scope
  | .line _ => { policy := .stop }
  | .console => { interactive := true }
  | .script _ => {}

/-- The name of a source in diagnostics. -/
def label : Source → Bytes
  | .script path => Path.base path
  | _ => []

/-- The source is a script, whose lines are shown as they are run. -/
def isScript : Source → Bool
  | .script _ => true
  | _ => false

end Source

/-- The environment variable with the prompt of the console. -/
def promptVariable : Bytes := "IOCSH_PS1"

/-- The environment variable that is set to the path of a script that is run. -/
def scriptVariable : Bytes := "IOCSH_STARTUP_SCRIPT"

/-- The prompt of a console when no other is set. -/
def defaultPrompt : Bytes := "iocsh> "

/-- The source of an invocation, open for reading. -/
inductive Reader where
  /-- The line that is still to be read. -/
  | single (line : Option Bytes)
  /-- A stream that is read line by line, and where prompts are written. -/
  | stream (source : Endpoint) (buffer : LineBuffer) (prompts : Option Endpoint)
  | terminal (editor : TerminalEditor)

namespace Interpreter

variable {σ : Type} [FileBase σ]

/-! ### Diagnostics -/

/-- Text in a style of the terminal, if colours are in use; each part is written by itself. -/
def styled (colored : Bool) (style : String) (text : Bytes) : List Bytes :=
  if colored then [("\x1b[" : Bytes) ++ (style : Bytes) ++ "m", text, ("\x1b[0m" : Bytes)]
  else [text]

/-- Writes a diagnostic to the error output. -/
def report (location : Location) (message : Bytes) (m : Machine σ) : Machine σ :=
  if location.file.isEmpty then m.writeLine .error message
  else
    let m := (styled m.shell.colored "31" location.text).foldl (fun m t => m.write .error t) m
    m.writeLine .error ([Ascii.space] ++ message)

/-- Writes a diagnostic and marks the line as failed. -/
def fail (location : Location) (message : Bytes) (m : Machine σ) : Machine σ :=
  (report location message m).setErrored true

/-! ### Reading -/

/-- Opens the source of an invocation, or says why it cannot start. -/
def openSource : Source → Machine σ → Except Failure Reader × Machine σ
  | .line text, m => (.ok (.single (some text)), m)
  | .console, m =>
    match m.shell.console with
    | .plain =>
      (.ok (.stream m.shell.streams.input {} (some m.shell.streams.output)), m)
    | .terminal recalled =>
      let ((keys, _), m) := m.readAll m.shell.streams.input
      let lines := ((m.host.history.map fun h => h.recent recalled).getD []).map HistoryEntry.text
      (.ok (.terminal (TerminalEditor.start keys lines)), m)
    | .missing reason =>
      (.error (.setup .resource reason),
        m.writeLine .error "Can't allocate command-line object.")
  | .script path, m =>
    match m.openFile (.open (m.resolve path)) with
    | (.ok h, m) => (.ok (.stream (.file h) {} none), m)
    | (.error f, m) =>
      (.error (.setup .inputOutput f.message),
        m.writeLine .error (("Can't open " : Bytes) ++ path ++ ": " ++ f.reason.message))

/-- Closes the source of an invocation. -/
def closeReader (r : Reader) (m : Machine σ) : Machine σ :=
  match r with
  | .stream (.file h) _ _ => (m.closeHandle h).2
  | _ => m

/-- The prompt of a console. -/
def prompt (m : Machine σ) : Bytes := (m.host.environment.find? promptVariable).getD defaultPrompt

/-- Reads the next line; none at the end of the source. -/
def readLine : Reader → Machine σ → Option Bytes × Reader × Machine σ
  | .single line, m => (line, .single none, m)
  | .stream source buffer prompts, m =>
    let text := prompt m
    let m := match prompts with
      | some e => if text.isEmpty then m else m.writeTo 1 e text
      | none => m
    let fuel := m.available source + buffer.pending.length + 4
    match LineBuffer.next (Machine.read source) fuel [] buffer m with
    | (.ok line, buffer, m) => (some line, .stream source buffer prompts, m)
    | (.error .endOfInput, buffer, m) => (none, .stream source buffer prompts, m)
    | (.error f, buffer, m) =>
      (none, .stream source buffer prompts,
        m.writeLine .error (("Error reading input: " : Bytes) ++ f.message))
  | .terminal editor, m =>
    match editor.readLine Completion.typed m.host.history m with
    | (line, editor, history, m) =>
      (line, .terminal editor, { m with host := { m.host with history } })

/-! ### Routines -/

/-- Starts an invocation in a context, with a list of definitions. -/
abbrev Invoke (σ : Type := FileStore) := Option Context → Source → Bytes → ShellM σ Outcome

/-- Remembers the path of a script in the environment. -/
def rememberScript (path : Bytes) (m : Machine σ) : Machine σ :=
  match Source.ofPath path with
  | .script _ =>
    match m.host.environment.set scriptVariable path with
    | .ok e => m.setEnvironment e
    | .error _ => m
  | _ => m

/-- Runs a script or the console. -/
def load (invoke : Invoke σ) (context : Option Context) (path definitions : Bytes) :
    ShellM σ Outcome := do
  modify (rememberScript path)
  invoke context (.ofPath path) definitions

/-- Performs a routine; `invoke` starts the invocations that it asks for. -/
def perform {α : Type} (invoke : Invoke σ) : Routine α → ShellM σ α
  | .done a => pure a
  | .ask q next => do
    let a ← modifyGet fun m => m.answer q
    perform invoke (next a)
  | .run line definitions next => do
    let o ← invoke (← get).shell.context (.line line) definitions
    perform invoke (next o)
  | .load path definitions next => do
    let o ← load invoke (← get).shell.context path definitions
    perform invoke (next o)

/-- Calls a command; the failure if it failed, a crash being recorded and turned into one. -/
def call (invoke : Invoke σ) (body : CommandBody) (args : Arguments) :
    ShellM σ (Option Failure) := do
  match ← perform invoke (body args) with
  | .done => return none
  | .failed f => return some f
  | .crashed cause =>
    modify fun m => m.record (.crash cause [])
    return some (.plain (("panic: " : Bytes) ++ cause))

/-! ### Lines -/

/-- Leads the streams back and closes the targets of a line. -/
def detach (rs : Redirects) (location : Location) (m : Machine σ) : Machine σ :=
  match rs.detach m with
  | ([], _, m) => m
  | (faults, _, m) => report location (Bytes.join [Ascii.newline] (faults.map (·.message))) m

/-- Calls the command of a line and marks the line as failed if the command fails. -/
def callMarked (invoke : Invoke σ) (c : Command CommandBody) (args : Arguments)
    (words : List Bytes) (location : Location) : ShellM σ Unit := do
  modify fun m => ((m.setErrored false).record (.runCommand words)).noteCall words
  match ← call invoke c.body args with
  | none => return
  | some f =>
    modify fun m =>
      ((report location f.message m).record (.invalidInvocation words f.message)).setErrored true

/-- Calls a command under its redirections. -/
def callAttached (invoke : Invoke σ) (c : Command CommandBody) (args : Arguments)
    (words : List Bytes) (rs : Redirects) (location : Location) : ShellM σ Redirects := do
  let outer := (← get).shell.attachments
  let rs ← modifyGet fun m => rs.attach m
  modify fun m => { m with shell := { m.shell with attachments := rs } }
  callMarked invoke c args words location
  modify fun m => { m with shell := { m.shell with attachments := outer } }
  return rs

/-- Looks up the command of a line whose targets are open, converts its arguments and calls
it.  The line counts as failed until the command is called. -/
def dispatchOpen (invoke : Invoke σ) (words : List Bytes) (rs : Redirects) (location : Location) :
    ShellM σ Redirects := do
  match words with
  | [] => return rs
  | name :: _ =>
    modify fun m => m.setErrored true
    let table := (← get).host.table
    match table.findCommand? name with
    | none =>
      modify fun m =>
        (report location (("Command " : Bytes) ++ name ++ " not found.") m).record
          (.unknownCommand words)
      return rs
    | some c =>
      match Argument.bind table.handle c.signature words with
      | .error f =>
        modify fun m => (report location f.message m).record (.invalidInvocation words f.message)
        return rs
      | .ok args => callAttached invoke c args words rs location

/-- Opens the targets of a line; the line fails if one cannot be opened. -/
def openTargets (rs : Redirects) (location : Location) : ShellM σ (Option Redirects) := do
  match ← modifyGet (fun m => let (f, rs, m) := rs.openAll m.resolve m; ((f, rs), m)) with
  | (none, rs) => return some rs
  | (some f, _) =>
    modify (fail location f.message)
    return none

/-- Dispatches a line to its command. -/
def dispatch (invoke : Invoke σ) (line : Line) (location : Location) : ShellM σ Unit := do
  match ← openTargets (.ofList line.redirections) location with
  | none => return
  | some rs =>
    let rs ← dispatchOpen invoke line.words rs location
    modify (detach rs location)

/-- Runs a script and marks the line as failed if the script failed. -/
def runMarked (invoke : Invoke σ) (context : Option Context) (source : Source) : ShellM σ Unit := do
  let o ← invoke context source []
  if o.errored || o.failure.isSome then modify fun m => m.setErrored true

/-- Runs the script that a line without words redirects its input from, under the other
redirections of the line. -/
def nested (invoke : Invoke σ) (context : Option Context) (name : Bytes) (rs : Redirects)
    (location : Location) : ShellM σ Unit := do
  -- an empty name would otherwise stand for the console
  if name.isEmpty then
    modify (fail location (RedirectionFault.message ⟨name, .notExist⟩))
    return
  match ← openTargets rs location with
  | none => return
  | some rs =>
    let rs ← modifyGet fun m => rs.attach m
    runMarked invoke context (.ofPath name)
    modify (detach rs location)

/-- The text is a comment. -/
def isComment (text : Bytes) : Bool := text.head? == some Ascii.hash

/-- The text is a comment that scripts do not show. -/
def isSilentComment (text : Bytes) : Bool := text.startsWith "#-"

/-- What the handling of a line says about the lines after it. -/
inductive Continuation where
  | goOn
  | leave
  deriving DecidableEq, Repr

/-- Handles a line that has been split. -/
def handleSplit (invoke : Invoke σ) (context : Option Context) (line : Line)
    (location : Location) : ShellM σ Continuation := do
  let rs := Redirects.ofList line.redirections
  match line.words, rs.input? with
  | [], some r =>
    nested invoke context r.name (rs.without 0) location
    return .goOn
  | words, _ =>
    if words.head? == some "exit" then return .leave
    dispatch invoke line location
    return .goOn

/-- Handles a line that has been shown; blank lines and comments are skipped. -/
def handleShown (invoke : Invoke σ) (context : Option Context) (line : Bytes)
    (location : Location) : ShellM σ Continuation := do
  let text := line.trimStart
  if text.isEmpty || isComment text then return .goOn
  match Line.split line with
  | .error .empty => return .leave
  | .error f =>
    modify (fail location f.message)
    return .goOn
  | .ok line => handleSplit invoke context line location

/-- Handles a line whose references have been replaced. -/
def handleExpanded (invoke : Invoke σ) (context : Option Context) (line : Bytes)
    (location : Location) (script : Bool) : ShellM σ Continuation := do
  if script && !line.isEmpty && !isSilentComment line.trimStart then
    modify fun m => m.writeLine .standard line
  handleShown invoke context line location

/-- Handles one line of an invocation. -/
def handle (invoke : Invoke σ) (context : Option Context) (raw : Bytes) (location : Location)
    (script : Bool) : ShellM σ Continuation := do
  let text := raw.trimStart
  if isComment text then
    if script && !isSilentComment text then modify fun m => m.writeLine .standard raw
    return .goOn
  let m ← get
  let lookup := (m.shell.definitions.getD {}).lookup m.host.environment.find?
  match Substitution.expandDefined lookup raw with
  | .error f =>
    modify (fail location f.message)
    return .goOn
  | .ok line => handleExpanded invoke context line location script

/-! ### Suspensions -/

/-- Runs a line by the operator, whose shell takes the place of the suspended one meanwhile. -/
def attend (invoke : Invoke σ) (line : Bytes) : ShellM σ Unit := do
  let m ← get
  let before := m.host.traffic.length
  set { m with shell := m.host.operator }
  let o ← invoke none (.line line) []
  modify fun n =>
    let written := (n.host.traffic.drop before).filter fun t => t.shell == n.shell.id
    { shell := m.shell,
      host := { n.host with
        operator := n.shell,
        attended := n.host.attended ++ [.ran o.failure written] } }

/-- Runs lines by the operator. -/
def attendAll (invoke : Invoke σ) : List Bytes → ShellM σ Unit
  | [] => return
  | line :: lines => do
    attend invoke line
    attendAll invoke lines

/-- Resumes the suspended shell on behalf of the operator. -/
def resumeByOperator (m : Machine σ) : Machine σ :=
  let (effective, m) := m.release m.shell.id
  { m with host := { m.host with attended := m.host.attended ++ [.resumed effective] } }

/-- Suspends the shell until it is resumed or its context is cancelled. -/
def suspend (invoke : Invoke σ) (context : Option Context) : ShellM σ Unit := do
  let channel ← modifyGet Machine.halt
  match (← get).host.plan with
  | [] => modify fun m => m.cancel context
  | step :: plan =>
    modify fun m => { m with host := { m.host with plan } }
    attendAll invoke step.lines
    match step.release with
    | .resume => modify resumeByOperator
    | .cancel => modify fun m => m.cancel context
    | .nothing => pure ()
  -- Nothing is announced any more if the shell was resumed.
  modify fun m => m.withdraw channel

/-! ### Invocations -/

/-- What the policy of an invocation decides before the next line is read. -/
inductive Decision where
  /-- The invocation ends with a failure. -/
  | finish (failure : Failure)
  /-- The next line is read; the invocation has the given failure when it ends. -/
  | readOn (failure : Option Failure)
  deriving DecidableEq, Repr

/-- Applies the policy to a line that failed. -/
def applyPolicy (invoke : Invoke σ) (context : Option Context) (failure : Option Failure) :
    ShellM σ Decision := do
  match (← get).shell.scopes.head? with
  | none => return .readOn failure
  | some scope =>
    if scope.interactive || !scope.errored then return .readOn failure
    match scope.policy with
    | .proceed => return .readOn failure
    | .stop =>
      modify fun m => m.writeLine .error Failure.stopped.message
      return .finish .stopped
    | .suspend =>
      if scope.isTimed then
        modify fun m => m.writeLine .error
          (("iocsh Error: Waiting " : Bytes) ++ scope.timeout.toOnePlace ++ " sec ...")
        if (← get).isCancelled context then return .finish .cancelled
        return .readOn (some .suspended)
      else
        modify fun m => m.writeLine .error Failure.suspended.message
        suspend invoke context
        return .finish .suspended

/-- The state of the loop between two lines. -/
structure Progress (ρ : Type) where
  reader : ρ
  failure : Option Failure := none
  location : Location := {}

/-- Reads and handles lines until the invocation ends; its failure and its reader.  `read`
takes the next line from a reader, none at its end. -/
def loop {ρ : Type} (read : ρ → Machine σ → Option Bytes × ρ × Machine σ) (invoke : Invoke σ)
    (context : Option Context) (script : Bool) :
    Nat → Progress ρ → ShellM σ (Option Failure × ρ)
  | 0, _ => fun _ => none
  | fuel + 1, p => do
    if (← get).isCancelled context then return (some .cancelled, p.reader)
    match ← applyPolicy invoke context p.failure with
    | .finish f => return (some f, p.reader)
    | .readOn failure =>
      let (line, reader) ← modifyGet fun m =>
        let (line, reader, m) := read p.reader m
        ((line, reader), m)
      match line with
      | none => return (failure, reader)
      | some raw =>
        let location := { p.location with line := p.location.line + 1 }
        match ← handle invoke context raw location script with
        | .leave => return (failure, reader)
        | .goOn => loop read invoke context script fuel ⟨reader, failure, location⟩

/-- Enters an invocation. -/
def enter (context : Option Context) (scope : Scope) (defs : List Definition) (m : Machine σ) :
    Machine σ :=
  let definitions := ((m.shell.definitions.getD {}).push).install defs
  let outermost := m.shell.scopes.isEmpty
  let m := { m with shell := { m.shell with
    context, scopes := scope :: m.shell.scopes, definitions := some definitions } }
  if outermost && !m.shell.name.isEmpty then m.enlist else m

/-- Leaves an invocation that began with a context. -/
def leave (context : Option Context) (m : Machine σ) : Machine σ :=
  let scopes := m.shell.scopes.tail
  let definitions := if scopes.isEmpty then none else m.shell.definitions.map Definitions.pop
  let m := { m with shell := { m.shell with context, scopes, definitions } }
  if scopes.isEmpty && !m.shell.name.isEmpty then m.delist else m

/-- Runs an invocation, with `invoke` for those inside it and fuel for its lines. -/
def invocation (invoke : Invoke σ) (fuel : Nat) : Invoke σ := fun context source definitions => do
  match ← modifyGet (openSource source) with
  | .error f => return ⟨true, some f⟩
  | .ok reader =>
    match DefinitionList.parse definitions with
    | .error f =>
      modify fun m => closeReader reader (m.writeLine .error f.message)
      return ⟨true, some (.setup .malformed f.message)⟩
    | .ok defs =>
      let outer := (← get).shell.context
      modify (enter context source.scope defs)
      let (failure, reader) ← loop readLine invoke context source.isScript fuel
        { reader, location := { file := source.label } }
      let errored := (← get).isErrored
      modify fun m => closeReader reader (leave outer m)
      return ⟨errored, failure⟩

/-- Starts an invocation, with fuel for its lines and for the invocations inside it. -/
def invoke : Nat → Invoke σ
  | 0 => fun _ _ _ _ => none
  | fuel + 1 => invocation (invoke fuel) fuel

end Interpreter

/-! ### Running -/

namespace Machine

variable {σ : Type} [FileBase σ]

/-- Runs a single line with a list of definitions. -/
def runLine (m : Machine σ) (fuel : Nat) (context : Option Context) (line definitions : Bytes) :
    Option (Outcome × Machine σ) :=
  (Interpreter.invoke fuel context (.line line) definitions).run m

/-- Runs a script, or the console, with a list of definitions. -/
def load (m : Machine σ) (fuel : Nat) (context : Option Context) (path definitions : Bytes) :
    Option (Outcome × Machine σ) :=
  (Interpreter.load (Interpreter.invoke fuel) context path definitions).run m

/-- Performs a routine outside any invocation. -/
def perform {α : Type} (m : Machine σ) (fuel : Nat) (r : Routine α) : Option (α × Machine σ) :=
  (Interpreter.perform (Interpreter.invoke fuel) r).run m

/-- What came of a call outside any invocation. -/
inductive CallResult where
  /-- No command has the name. -/
  | notFound
  /-- The words do not fit the declaration of the command. -/
  | rejected (fault : Argument.Fault)
  | ended (verdict : Verdict)
  deriving DecidableEq, Repr

/-- Converts words to the arguments of the command that the first one names, and calls it
outside any invocation. -/
def call (m : Machine σ) (fuel : Nat) (words : List Bytes) : Option (CallResult × Machine σ) :=
  match m.host.table.findCommand? (words.headD []) with
  | none => some (.notFound, m)
  | some c =>
    match Argument.bind m.host.table.handle c.signature words with
    | .error f => some (.rejected f, m)
    | .ok args => (m.perform fuel (c.body args)).map fun (v, m) => (.ended v, m)

end Machine

end ConsoleShell
