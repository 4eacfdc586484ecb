/-
Environment variables.

A variable's name is not empty and has no equals sign, so that `name=value` can be read
back.
-/
import ConsoleShell.Text.Quoted

namespace ConsoleShell

/-- The variables with their values, the latest first; a name occurs once. -/
structure Environment where
  entries : List (Bytes × Bytes) := []
  deriving DecidableEq, Repr

namespace Environment

/-- A name that no variable can have. -/
structure BadName where
  name : Bytes
  deriving DecidableEq, Repr

/-- The diagnostic for a bad name. -/
def BadName.message (f : BadName) : Bytes :=
  ("invalid environment variable name " : Bytes) ++ f.name.quoted

/-- A variable may have the name. -/
def isName (name : Bytes) : Bool := !name.isEmpty && !name.contains Ascii.equals

/-- The value of a variable. -/
def find? (e : Environment) (name : Bytes) : Option Bytes :=
  (e.entries.find? (·.1 == name)).map (·.2)

/-- The value of a variable, empty if it is not set. -/
def get (e : Environment) (name : Bytes) : Bytes := (e.find? name).getD []

/-- Without a variable. -/
def unset (e : Environment) (name : Bytes) : Environment :=
  ⟨e.entries.filter fun x => x.1 != name⟩

/-- Sets a variable. -/
def set (e : Environment) (name value : Bytes) : Except BadName Environment :=
  if isName name then .ok ⟨(name, value) :: (e.unset name).entries⟩ else .error ⟨name⟩

/-- A variable as it is written in a list. -/
def entryText (entry : Bytes × Bytes) : Bytes := entry.1 ++ [Ascii.equals] ++ entry.2

/-- The variables as `name=value`, in the order of these texts. -/
def list (e : Environment) : List Bytes := Bytes.sort (e.entries.map entryText)

/-- The name and the value in an element of a list; without an equals sign the value is empty. -/
def splitEntry (text : Bytes) : Bytes × Bytes := (text.splitAt? Ascii.equals).getD (text, [])

/-- Sets the variables of a list in order and stops at the first bad name. -/
def copy (e : Environment) : List Bytes → Option BadName × Environment
  | [] => (none, e)
  | x :: xs =>
    match e.set (splitEntry x).1 (splitEntry x).2 with
    | .error f => (some f, e)
    | .ok e => e.copy xs

/-- The environment with the variables of a list, up to the first bad name. -/
def ofList (xs : List Bytes) : Environment := (copy {} xs).2

end Environment

end ConsoleShell
