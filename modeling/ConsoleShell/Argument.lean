/-
Arguments of commands.

A command declares a name and a kind for each of its arguments.  The words of a line are
converted to values of those kinds: numbers from literals, strings as they are, the rest
of the line as a list of words, and the handle of the external database by its name.
-/
import ConsoleShell.Number.Double
import ConsoleShell.Number.DoubleReader
import ConsoleShell.Text.Quoted

namespace ConsoleShell

/-- The kind of a declared argument. -/
inductive ArgumentKind where
  /-- A signed integer of 64 bits; larger unsigned values wrap around. -/
  | int
  /-- A floating-point number. -/
  | double
  /-- A string that is valid for the duration of the call. -/
  | string
  /-- A string that the command may keep. -/
  | persistent
  /-- A string that completes as the name of a record. -/
  | record
  /-- A string that completes as a path. -/
  | path
  /-- The rest of the line with the word before it; only the last argument may be one. -/
  | words
  /-- The handle of the external database. -/
  | handle
  /-- A number that denotes no kind. -/
  | unknown (code : Int)
  deriving DecidableEq, Repr

/-- The name that stands for the handle of the external database. -/
def handleName : Bytes := "pdbbase"

namespace ArgumentKind

/-- The kind with a given number. -/
def ofCode (code : Int) : ArgumentKind :=
  match code with
  | 0 => .int
  | 1 => .double
  | 2 => .string
  | 3 => .persistent
  | 4 => .record
  | 5 => .path
  | 6 => .words
  | 7 => .handle
  | n => .unknown n

/-- The kind with a given keyword. -/
def ofKeyword? (word : Bytes) : Option ArgumentKind :=
  let kinds : List (Bytes × ArgumentKind) :=
    [("int", .int), ("double", .double), ("string", .string), ("persistent", .persistent),
      ("record", .record), ("path", .path), ("argv", .words), ("handle", .handle)]
  (kinds.find? fun k => k.1 == word).map (·.2)

/-- The number of a kind. -/
def code : ArgumentKind → Int
  | .int => 0
  | .double => 1
  | .string => 2
  | .persistent => 3
  | .record => 4
  | .path => 5
  | .words => 6
  | .handle => 7
  | .unknown n => n

/-- The kind in words. -/
def label : ArgumentKind → Bytes
  | .int => "int"
  | .double => "double"
  | .string => "string"
  | .persistent => "persistent string"
  | .record => "record name"
  | .path => "path"
  | .words => "argv"
  | .handle => handleName
  | .unknown n => ("ArgType(" : Bytes) ++ Bytes.ofInt n ++ ")"

end ArgumentKind

/-- A declared argument. -/
structure Parameter where
  name : Bytes
  kind : ArgumentKind
  deriving DecidableEq, Repr

/-- The declaration of a command. -/
structure Signature where
  name : Bytes
  parameters : List Parameter := []
  usage : Bytes := []
  deriving DecidableEq, Repr

namespace Signature

/-- Why a declaration cannot be used. -/
inductive Fault where
  | noName
  /-- An argument that takes the rest of the line is not the last one. -/
  | wordsNotLast (command parameter : Bytes)
  | illegalKind (command : Bytes) (code : Int)
  deriving DecidableEq, Repr

/-- The diagnostic for a declaration that cannot be used. -/
def Fault.message : Fault → Bytes
  | .noName => "command name must not be empty"
  | .wordsNotLast command parameter =>
    command ++ ": argv argument " ++ parameter.quoted ++ " must be last"
  | .illegalKind command code => command ++ ": illegal argument type " ++ Bytes.ofInt code

/-- The first fault of a list of parameters. -/
def checkParameters (command : Bytes) : List Parameter → Except Fault Unit
  | [] => .ok ()
  | p :: ps =>
    match p.kind with
    | .unknown code => .error (.illegalKind command code)
    | .words => if ps.isEmpty then .ok () else .error (.wordsNotLast command p.name)
    | _ => checkParameters command ps

/-- A declaration needs a name and legal parameters. -/
def check (s : Signature) : Except Fault Unit :=
  if s.name.isEmpty then .error .noName else checkParameters s.name s.parameters

end Signature

/-- The handle of the external database: a value that is only passed on. -/
abbrev Handle := Bytes

/-- The value of an argument. -/
inductive Argument where
  | int (value : Int)
  | double (value : Double)
  /-- A string, and whether the line supplied it. -/
  | string (value : Bytes) (supplied : Bool)
  | words (values : List Bytes)
  | handle (value : Handle)
  deriving DecidableEq, Repr

namespace Argument

/-- Why a word is no value of the kind that is declared for it. -/
inductive Fault where
  | illegalInteger (word : Bytes)
  | integerOutOfRange (word : Bytes)
  | illegalDouble (word : Bytes)
  /-- No handle has been set. -/
  | noHandle
  | notHandle (word : Bytes)
  | illegalKind (code : Int)
  deriving DecidableEq, Repr

/-- The diagnostic for a word that cannot be converted. -/
def Fault.message : Fault → Bytes
  | .illegalInteger w => ("Illegal integer '" : Bytes) ++ w ++ "'"
  | .integerOutOfRange w => ("Integer '" : Bytes) ++ w ++ "' out of range"
  | .illegalDouble w => ("Illegal double '" : Bytes) ++ w ++ "'"
  | .noHandle => handleName ++ " not present"
  | .notHandle w => ("Expecting '" : Bytes) ++ handleName ++ "' got '" ++ w ++ "'"
  | .illegalKind code => ("Illegal argument type " : Bytes) ++ Bytes.ofInt code

/-- An integer literal.  A literal too large for a signed number is read as unsigned. -/
def parseInteger (w : Bytes) : Except Fault Int :=
  if w.contains Ascii.underscore then .error (.illegalInteger w)
  else match Numeral.parseSigned w with
    | .ok n => .ok n
    | .error .malformed => .error (.illegalInteger w)
    | .error .outOfRange =>
      match Numeral.parseUnsigned w with
      | .ok n => .ok (Numeral.wrap n)
      | .error .outOfRange => .error (.integerOutOfRange w)
      | .error .malformed =>
        if w.head? == some Ascii.minus then .error (.integerOutOfRange w)
        else .error (.illegalInteger w)

/-- A floating-point literal; numbers out of range become infinite. -/
def parseDouble (w : Bytes) : Except Fault Double :=
  if w.contains Ascii.underscore then .error (.illegalDouble w)
  else match Double.parseRounded? w with
    | some x => .ok x
    | none => .error (.illegalDouble w)

/-- The value of one argument from its word; the word is absent on a short line. -/
def convert (handle : Option Handle) (kind : ArgumentKind) (word : Option Bytes) :
    Except Fault Argument :=
  let w := word.getD []
  match kind with
  | .int => if w.isEmpty then .ok (.int 0) else (parseInteger w).map .int
  | .double => if w.isEmpty then .ok (.double (.zero false)) else (parseDouble w).map .double
  | .string => .ok (.string w word.isSome)
  | .persistent => .ok (.string w word.isSome)
  | .record => .ok (.string w word.isSome)
  | .path => .ok (.string w word.isSome)
  | .handle =>
    if w.isEmpty || w.head? == some 48 || w == handleName then
      match handle with
      | some h => .ok (.handle h)
      | none => .error .noHandle
    else .error (.notHandle w)
  | .words => .error (.illegalKind 6)
  | .unknown code => .error (.illegalKind code)

/-- The values of the parameters from position `i` on; the first that fails decides. -/
def bindFrom (handle : Option Handle) (words : List Bytes) (i : Nat) :
    List Parameter → Except Fault (List Argument)
  | [] => .ok []
  | p :: ps =>
    match (if p.kind = .words then .ok (.words (words.drop i))
      else convert handle p.kind words[i + 1]?) with
    | .error f => .error f
    | .ok a => (bindFrom handle words (i + 1) ps).map (a :: ·)

/-- The values of a command's parameters from the words of a line, its name first. -/
def bind (handle : Option Handle) (s : Signature) (words : List Bytes) :
    Except Fault (List Argument) :=
  bindFrom handle words 0 s.parameters

end Argument

/-- The values that a command is called with. -/
abbrev Arguments := List Argument

namespace Arguments

/-- Argument `i` as an integer, zero if it is none. -/
def int (a : Arguments) (i : Nat) : Int :=
  match a[i]? with
  | some (.int n) => n
  | _ => 0

/-- Argument `i` as a floating-point number, zero if it is none. -/
def double (a : Arguments) (i : Nat) : Double :=
  match a[i]? with
  | some (.double x) => x
  | _ => .zero false

/-- Argument `i` as a string and whether it was supplied. -/
def string (a : Arguments) (i : Nat) : Bytes × Bool :=
  match a[i]? with
  | some (.string s supplied) => (s, supplied)
  | _ => ([], false)

/-- Argument `i` as a string, if it was supplied. -/
def string? (a : Arguments) (i : Nat) : Option Bytes :=
  match a[i]? with
  | some (.string s true) => some s
  | _ => none

/-- Argument `i` as a list of words. -/
def words? (a : Arguments) (i : Nat) : Option (List Bytes) :=
  match a[i]? with
  | some (.words ws) => some ws
  | _ => none

/-- Argument `i` as the handle. -/
def handle? (a : Arguments) (i : Nat) : Option Handle :=
  match a[i]? with
  | some (.handle h) => some h
  | _ => none

end Arguments

end ConsoleShell
