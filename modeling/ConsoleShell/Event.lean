/-
Events.

The shell records what happens in a session as events.  An event has a level, a name and
fields in a fixed order.  It is written either as one line of JSON or as one line of
`key=value` pairs.
-/
import ConsoleShell.Json.Value

namespace ConsoleShell

/-- How important an event is. -/
inductive Level where
  | info
  | warn
  | error
  deriving DecidableEq, Repr

/-- The name of a level. -/
def Level.name : Level → Bytes
  | .info => "INFO"
  | .warn => "WARN"
  | .error => "ERROR"

/-- The rank of a level. -/
def Level.rank : Level → Nat
  | .info => 0
  | .warn => 1
  | .error => 2

/-- What an event is about. -/
inductive EventKind where
  | sessionStart
  | sessionEnd
  | loginAttempt
  | runCommand
  | unknownCommand
  | invalidInvocation
  | crash
  | openRecording
  | errorLog
  | fileAccess
  deriving DecidableEq, Repr

namespace EventKind

/-- The name under which events of a kind are recorded. -/
def name : EventKind → Bytes
  | .sessionStart => "session_start"
  | .sessionEnd => "session_end"
  | .loginAttempt => "login_attempt"
  | .runCommand => "run_command"
  | .unknownCommand => "unknown_command"
  | .invalidInvocation => "invalid_invocation"
  | .crash => "panic"
  | .openRecording => "open_tty_log"
  | .errorLog => "errlog"
  | .fileAccess => "file_access"

/-- Every kind of event. -/
def all : List EventKind :=
  [.sessionStart, .sessionEnd, .loginAttempt, .runCommand, .unknownCommand, .invalidInvocation,
    .crash, .openRecording, .errorLog, .fileAccess]

/-- The kind of the events with a given name. -/
def ofName? (name : Bytes) : Option EventKind := all.find? fun k => k.name == name

end EventKind

/-- Something that happened in a session. -/
inductive Event where
  /-- A session begins to read a source. -/
  | sessionStart (source : Bytes)
  /-- A session ends, with the message of its failure if it failed. -/
  | sessionEnd (failure : Option Bytes)
  | loginAttempt (user address : Bytes) (accepted : Bool)
  /-- A command is about to be called. -/
  | runCommand (words : List Bytes)
  | unknownCommand (words : List Bytes)
  /-- A command failed or was given bad arguments. -/
  | invalidInvocation (words : List Bytes) (error : Bytes)
  /-- A command crashed. -/
  | crash (cause trace : Bytes)
  /-- A recording of the session was opened. -/
  | openRecording (name : Bytes)
  /-- A message for the error log. -/
  | errorLog (message : Bytes)
  | fileAccess (operation path : Bytes) (allowed : Bool)
  deriving DecidableEq, Repr

/-- The value of a field. -/
inductive FieldValue where
  | text (value : Bytes)
  | words (values : List Bytes)
  deriving DecidableEq, Repr

namespace Event

/-- The level of an event. -/
def level : Event → Level
  | .unknownCommand _ => .warn
  | .invalidInvocation _ _ => .warn
  | .crash _ _ => .error
  | .errorLog _ => .error
  | .fileAccess _ _ allowed => if allowed then .info else .warn
  | _ => .info

/-- What an event is about. -/
def kind : Event → EventKind
  | .sessionStart _ => .sessionStart
  | .sessionEnd _ => .sessionEnd
  | .loginAttempt _ _ _ => .loginAttempt
  | .runCommand _ => .runCommand
  | .unknownCommand _ => .unknownCommand
  | .invalidInvocation _ _ => .invalidInvocation
  | .crash _ _ => .crash
  | .openRecording _ => .openRecording
  | .errorLog _ => .errorLog
  | .fileAccess _ _ _ => .fileAccess

/-- The name of an event. -/
def name (e : Event) : Bytes := e.kind.name

/-- The fields of an event in order. -/
def fields : Event → List (Bytes × FieldValue)
  | .sessionStart source => [("source", .text source)]
  | .sessionEnd none => []
  | .sessionEnd (some failure) => [("error", .text failure)]
  | .loginAttempt user address accepted =>
    [("username", .text user), ("remote_addr", .text address),
      ("result", .text (if accepted then "accepted" else "rejected"))]
  | .runCommand words => [("command", .words words)]
  | .unknownCommand words => [("command", .words words)]
  | .invalidInvocation words error => [("command", .words words), ("error", .text error)]
  | .crash cause trace => [("context", .text cause), ("stacktrace", .text trace)]
  | .openRecording name => [("name", .text name)]
  | .errorLog message => [("message", .text message)]
  | .fileAccess operation path allowed =>
    [("op", .text operation), ("path", .text path),
      ("result", .text (if allowed then "allowed" else "denied"))]

/-! ### One line of JSON -/

/-- Strings that stand alone: no letters for backspace and form feed. -/
def plainStyle : Json.Style := ⟨false, false⟩

/-- Strings in lists. -/
def listStyle : Json.Style := ⟨false, true⟩

/-- The text of a field's value. -/
def FieldValue.json : FieldValue → Bytes
  | .text s => Json.quote plainStyle s
  | .words ws => ("[" : Bytes) ++ Bytes.join "," (ws.map (Json.quote listStyle)) ++ "]"

/-- The head of a line: time, level, name and, in a session, its identifier. -/
def head (e : Event) (time : Bytes) (session : Option Bytes) : List (Bytes × FieldValue) :=
  ("time", .text time) :: ("level", .text e.level.name) :: ("msg", .text e.name) ::
    (session.map fun id => (("session_id" : Bytes), FieldValue.text id)).toList

/-- The event as one line of JSON. -/
def jsonLine (e : Event) (time : Bytes) (session : Option Bytes) : Bytes :=
  let field (f : Bytes × FieldValue) : Bytes :=
    Json.quote plainStyle f.1 ++ ":" ++ FieldValue.json f.2
  let all := (e.head time session ++ e.fields).map field
  Bytes.line (Ascii.openBrace :: Bytes.join "," all ++ [Ascii.closeBrace])

/-- The event as a JSON object, time and session apart. -/
def json (e : Event) : Json :=
  let value : FieldValue → Json
    | .text s => .string (Utf8.sanitize s)
    | .words ws => .array (ws.map fun w => .string (Utf8.sanitize w))
  .object (("level", .string e.level.name) :: ("msg", .string e.name) ::
    e.fields.map fun f => (f.1, value f.2))

/-! ### One line of text -/

/-- A text that stands in quotes: an empty one, or one with a character that would be misread.
Of the characters of ASCII these are the blank, the quote, the equals sign and those below the
blank. -/
def needsQuotes (s : Bytes) : Bool :=
  s.isEmpty || (Utf8.decode s).any fun
    | .stray _ => true
    | .char c =>
      if c.toNat < 0x80 then c.toNat ≤ 0x20 || c == '"' || c == '='
      else c == Utf8.replacement || !Unicode.isPrintable c

/-- The text of a field's value, quoted if needed. -/
def FieldValue.plain (v : FieldValue) : Bytes :=
  let s := match v with
    | .text s => s
    | .words ws => ("[" : Bytes) ++ Bytes.join " " ws ++ "]"
  if needsQuotes s then s.quoted else s

/-- The event as one line of `key=value` pairs. -/
def textLine (e : Event) (time : Bytes) (session : Option Bytes) : Bytes :=
  let field (f : Bytes × FieldValue) : Bytes := f.1 ++ "=" ++ FieldValue.plain f.2
  Bytes.line (Bytes.join " " ((e.head time session ++ e.fields).map field))

end Event

end ConsoleShell
