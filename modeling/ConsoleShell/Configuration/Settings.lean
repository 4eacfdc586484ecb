/-
Settings of the shell and of its console.

Settings are written as a YAML mapping.  Keys are recognised in any case; a key without a
meaning is a fault.  A number or a truth value where a text is expected stands for its own
text, and nothing leaves the setting as it is.
-/
import ConsoleShell.Json.Reader
import ConsoleShell.Number.Decimal
import ConsoleShell.Yaml.Value

namespace ConsoleShell

/-- Somebody who may log in to the console. -/
structure User where
  name : Bytes := []
  passwords : List Bytes := []
  deriving DecidableEq, Repr

/-- Settings of the console. -/
structure ConsoleSettings where
  port : Int := 0
  banner : Bytes := []
  /-- The most bytes per second that are read from a client; no limit if zero. -/
  maxInputRate : Int := 0
  /-- The directory of the recordings. -/
  recordings : Bytes := []
  recordingFormat : Bytes := []
  readOnly : Bool := false
  users : List User := []
  deriving DecidableEq, Repr

/-- All settings. -/
structure Settings where
  prompt : Bytes := []
  startupScript : Bytes := []
  definitions : Bytes := []
  color : Bool := false
  historyFile : Bytes := []
  historyLimit : Int := 0
  eventLog : Bytes := []
  console : ConsoleSettings := {}
  deriving DecidableEq, Repr

namespace Settings

/-! ### Reading -/

/-- Changes a record by a value; none if the value does not fit. -/
abbrev Change (σ : Type) := σ → Yaml.Value → Option σ

variable {σ : Type}

/-- The text of a scalar that is not null. -/
def text : Yaml.Scalar → Bytes
  | .null => []
  | .bool b => if b then "true" else "false"
  | .int n => Bytes.ofInt n
  | .float x => x.toShortestSingle
  | .string s => Utf8.sanitize s

/-- A signed number of 64 bits. -/
def word? (n : Int) : Option Int := if -2 ^ 63 ≤ n && n < 2 ^ 63 then some n else none

/-- Sets a text. -/
def setText (set : σ → Bytes → σ) : Change σ
  | s, .scalar .null => some s
  | s, .scalar v => some (set s (text v))
  | _, _ => none

/-- Sets a truth value. -/
def setBool (set : σ → Bool → σ) : Change σ
  | s, .scalar .null => some s
  | s, .scalar (.bool b) => some (set s b)
  | _, _ => none

/-- Sets a number; a floating-point number will do if its shortest text is that of an integer. -/
def setInt (set : σ → Int → σ) : Change σ
  | s, .scalar .null => some s
  | s, .scalar (.int n) => (word? n).map (set s)
  | s, .scalar (.float x) => (Numeral.parseDecimal x.toJson).toOption.map (set s)
  | _, _ => none

/-- Sets a list whose items are changes of a start value. -/
def setList {α : Type} (item : Change α) (start : α) (set : σ → List α → σ) : Change σ
  | s, .scalar .null => some (set s [])
  | s, .list items => (items.mapM (item start)).map (set s)
  | _, _ => none

/-- The text of a key; none for null. -/
def keyText? : Yaml.Scalar → Option Bytes
  | .null => none
  | k => some (text k)

/-- Changes a record by the fields of a mapping, in the order of their keys. -/
def setFields (fields : List (Bytes × Change σ)) : Change σ
  | s, .scalar .null => some s
  | s, .map pairs => do
    let named ← pairs.mapM fun (k, v) => (keyText? k).map fun k => (k, v)
    let sorted := named.mergeSort fun a b => a.1.le b.1
    sorted.foldlM (fun s (k, v) => do
      let (_, change) ← fields.find? fun f => Json.sameKey f.1 k
      change s v) s
  | _, _ => none

/-- The settings of a user. -/
def userFields : List (Bytes × Change User) :=
  [("username", setText fun u v => { u with name := v }),
   ("passwords", setList (setText fun _ v => v) [] fun u v => { u with passwords := v })]

/-- The settings of the console. -/
def consoleFields : List (Bytes × Change ConsoleSettings) :=
  [("port", setInt fun c v => { c with port := v }),
   ("banner", setText fun c v => { c with banner := v }),
   ("max_input_rate", setInt fun c v => { c with maxInputRate := v }),
   ("recordings", setText fun c v => { c with recordings := v }),
   ("recording_format", setText fun c v => { c with recordingFormat := v }),
   ("read_only", setBool fun c v => { c with readOnly := v }),
   ("users", setList (setFields userFields) {} fun c v => { c with users := v })]

/-- All settings. -/
def fields : List (Bytes × Change Settings) :=
  [("prompt", setText fun s v => { s with prompt := v }),
   ("startup_script", setText fun s v => { s with startupScript := v }),
   ("macros", setText fun s v => { s with definitions := v }),
   ("color", setBool fun s v => { s with color := v }),
   ("history_db", setText fun s v => { s with historyFile := v }),
   ("history_limit", setInt fun s v => { s with historyLimit := v }),
   ("app_log", setText fun s v => { s with eventLog := v }),
   ("console", fun s v => (setFields consoleFields s.console v).map fun c => { s with console := c })]

/-- The settings in a text; none if it is malformed. -/
def ofBytes? (s : Bytes) : Option Settings := do setFields fields {} (← Yaml.Value.ofBytes? s)

/-! ### Checking -/

/-- The rules that settings are held to. -/
inductive Rule where
  /-- The number is large enough. -/
  | atLeast
  /-- The number is small enough. -/
  | atMost
  /-- The text is not empty. -/
  | present
  /-- The text is one of a few. -/
  | listed
  /-- No two items are the same. -/
  | distinct
  deriving DecidableEq, Repr

/-- The name of a rule in diagnostics. -/
def Rule.tag : Rule → Bytes
  | .atLeast => "gte"
  | .atMost => "lte"
  | .present => "required"
  | .listed => "oneof"
  | .distinct => "unique"

/-- A setting that breaks a rule. -/
structure Violation where
  /-- What the setting is part of. -/
  path : Bytes
  field : Bytes
  rule : Rule
  deriving DecidableEq, Repr

/-- The diagnostic for a setting that breaks a rule. -/
def Violation.message (v : Violation) : Bytes :=
  ("Key: 'Configuration." : Bytes) ++ v.path ++ v.field ++ "' Error:Field validation for '" ++
    v.field ++ "' failed on the '" ++ v.rule.tag ++ "' tag"

/-- A violation, if a condition does not hold. -/
def check (path field : Bytes) (rule : Rule) (holds : Bool) : List Violation :=
  if holds then [] else [⟨path, field, rule⟩]

/-- No two items are the same. -/
def allDistinct : List Bytes → Bool
  | [] => true
  | x :: xs => !xs.contains x && allDistinct xs

/-- The formats that may be set. -/
def formats : List Bytes := ["asciicast", "uml"]

/-- What is wrong with a user. -/
def userViolations (index : Nat) (u : User) : List Violation :=
  let path : Bytes := ("console.users[" : Bytes) ++ Bytes.ofNat index ++ "]."
  check path "username" .present (!u.name.isEmpty) ++
    check path "passwords" .distinct (allDistinct u.passwords)

/-- What is wrong with the port. -/
def portViolations (port : Int) : List Violation :=
  if port < 0 then [⟨"console.", "port", .atLeast⟩]
  else check "console." "port" .atMost (port ≤ 65535)

/-- What is wrong with the users; unless their names differ, no user is looked at. -/
def usersViolations (users : List User) : List Violation :=
  if !allDistinct (users.map User.name) then [⟨"console.", "users", .distinct⟩]
  else (users.mapIdx userViolations).flatten

/-- What is wrong with the settings of the console. -/
def consoleViolations (c : ConsoleSettings) : List Violation :=
  portViolations c.port ++
    check "console." "max_input_rate" .atLeast (0 ≤ c.maxInputRate) ++
    check "console." "recordings" .present (!c.recordings.isEmpty) ++
    check "console." "recording_format" .listed (formats.contains c.recordingFormat) ++
    usersViolations c.users

/-- What is wrong with the settings, in order. -/
def violations (s : Settings) : List Violation :=
  check [] "history_limit" .atLeast (0 ≤ s.historyLimit) ++
    check [] "app_log" .present (!s.eventLog.isEmpty) ++ consoleViolations s.console

/-- The passwords of everybody with a name. -/
def passwords (s : Settings) (name : Bytes) : List Bytes :=
  (s.console.users.filter fun u => u.name == name).flatMap User.passwords

end Settings

end ConsoleShell
