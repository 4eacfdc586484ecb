/-
The table of commands and variables.

Every definition is kept in a record.  The listing, which is in the order of names, and the
registry, which is the index for lookup, both refer to the record: a definition that takes the
place of an earlier one is written into the record that is there.  Clearing the table leaves the
index in place: the records that it refers to are still there but released.
-/
import ConsoleShell.Argument
import ConsoleShell.Registry
import ConsoleShell.Text.Glob

namespace ConsoleShell

/-- A declared command with what it does. -/
structure Command (β : Type) where
  signature : Signature
  body : β

/-- Where the value of a variable is kept. -/
inductive Storage where
  | int (cell : Bytes)
  | double (cell : Bytes)
  | text (cell : Bytes)
  | nowhere
  deriving DecidableEq, Repr

/-- The type of a storage as diagnostics name it. -/
def Storage.typeName : Storage → Bytes
  | .int _ => "*int"
  | .double _ => "*float64"
  | .text _ => "*string"
  | .nowhere => "<nil>"

/-- A declared variable. -/
structure Variable where
  name : Bytes
  kind : ArgumentKind
  storage : Storage
  deriving DecidableEq, Repr

/-- What the index holds for a name. -/
inductive Mark where
  /-- A record of this table. -/
  | record (id : Nat)
  /-- A value that is no definition. -/
  | foreign
  deriving DecidableEq, Repr

/-! ### Catalogues -/

/-- A definition with whether it has been released. -/
structure Record (α : Type) where
  definition : α
  released : Bool := false

/-- The records of a table in the order in which they were made, and a listing of some. -/
structure Catalogue (α : Type) where
  records : List (Record α) := []
  /-- The listed records, strictly increasing by name. -/
  order : List Nat := []

namespace Catalogue

variable {α : Type} (name : α → Bytes)

/-- The definition in a record. -/
def definition? (c : Catalogue α) (id : Nat) : Option α := c.records[id]?.map (·.definition)

/-- The definition in a record that has not been released. -/
def live? (c : Catalogue α) (id : Nat) : Option α :=
  (c.records[id]?.filter fun r => !r.released).map (·.definition)

/-- The listed definitions. -/
def listed (c : Catalogue α) : List α := c.order.filterMap c.definition?

/-- The first position of the listing with a name that is not below. -/
def position (c : Catalogue α) (n : Bytes) : Nat :=
  c.order.findIdx fun id => (c.definition? id).any fun a => !(name a).lt n

/-- The listed record with a name, and its definition. -/
def holder? (c : Catalogue α) (n : Bytes) : Option (Nat × α) := do
  let id ← c.order[c.position name n]?
  let a ← c.definition? id
  if name a = n then some (id, a) else none

/-- Writes a definition into a record. -/
def overwrite (c : Catalogue α) (id : Nat) (a : α) : Catalogue α :=
  { c with records := c.records.modify id fun r => { r with definition := a } }

/-- Makes a record and lists it at a position. -/
def add (c : Catalogue α) (i : Nat) (a : α) : Catalogue α where
  records := c.records ++ [{ definition := a }]
  order := c.order.insertIdx i c.records.length

/-- Files a definition in the record with its name, or in a new one that the index takes. -/
def file? (c : Catalogue α) (index : Registry Mark) (domain : Bytes) (a : α) :
    Option (Catalogue α × Registry Mark) :=
  match c.holder? name (name a) with
  | some (id, _) => some (c.overwrite id a, index)
  | none =>
    (index.add? domain (name a) (.record c.records.length)).map fun index =>
      (c.add (c.position name (name a)) a, index)

/-- The definition that a mark of the index leads to. -/
def find? (c : Catalogue α) : Option Mark → Option α
  | some (.record id) => c.live? id
  | _ => none

/-- Releases the listed records. -/
def clear (c : Catalogue α) : Catalogue α where
  records := c.records.mapIdx fun id r => if id ∈ c.order then { r with released := true } else r

end Catalogue

/-! ### Tables -/

/-- The name of a command. -/
def Command.name {β : Type} (c : Command β) : Bytes := c.signature.name

/-- The commands and variables that all shells of a process share. -/
structure Table (β : Type) where
  commandCatalogue : Catalogue (Command β) := {}
  variableCatalogue : Catalogue Variable := {}
  registry : Registry Mark := {}
  /-- The handle of the external database. -/
  handle : Option Handle := none

namespace Table

variable {β : Type}

/-- The domain of the index for commands. -/
def commandDomain : Bytes := "commands"

/-- The domain of the index for variables. -/
def variableDomain : Bytes := "variables"

/-- The commands in the order of their names. -/
def commands (t : Table β) : List (Command β) := t.commandCatalogue.listed

/-- The variables in the order of their names. -/
def vars (t : Table β) : List Variable := t.variableCatalogue.listed

/-- Why a definition is not taken. -/
inductive Fault where
  | badSignature (fault : Signature.Fault)
  /-- A command that does nothing at all. -/
  | noBody (name : Bytes)
  | commandRejected (name : Bytes)
  | variableRejected (name : Bytes)
  | noVariableName
  | needsInt (name : Bytes) (storage : Storage)
  | needsDouble (name : Bytes) (storage : Storage)
  | badVariableKind (name : Bytes) (code : Int)
  deriving DecidableEq, Repr

/-- The diagnostic for a definition that is not taken. -/
def Fault.message : Fault → Bytes
  | .badSignature f => f.message
  | .noBody name => name ++ ": nil command function"
  | .commandRejected name => ("registry rejected command " : Bytes) ++ name.quoted
  | .variableRejected name => ("registry rejected variable " : Bytes) ++ name.quoted
  | .noVariableName => "variable name must not be empty"
  | .needsInt name s => name ++ ": int variables need *int storage, got " ++ s.typeName
  | .needsDouble name s => name ++ ": double variables need *float64 storage, got " ++ s.typeName
  | .badVariableKind name code =>
    ("Can't handle variable " : Bytes) ++ name ++ " of type " ++ Bytes.ofInt code ++ "."

/-- The outcome of a registration: the table, what went wrong, and a line for the log. -/
structure Registration (β : Type) where
  table : Table β
  fault : Option Fault := none
  notice : Option Bytes := none

/-- Takes a command whose declaration has been checked. -/
def put (t : Table β) (c : Command β) : Registration β :=
  match t.commandCatalogue.file? Command.name t.registry commandDomain c with
  | none =>
    { table := t, fault := some (.commandRejected c.name),
      notice := some (("iocshRegister failed to add " : Bytes) ++ c.name) }
  | some (catalogue, registry) =>
    { table := { t with commandCatalogue := catalogue, registry } }

/-- Registers a command in place of an earlier one with its name. -/
def register (t : Table β) (s : Signature) (body : Option β) : Registration β :=
  match s.check with
  | .error f => { table := t, fault := some (.badSignature f) }
  | .ok () =>
    match body with
    | none => { table := t, fault := some (.noBody s.name) }
    | some b => t.put ⟨s, b⟩

/-- The declaration of the command that shows and sets variables. -/
def varSignature : Signature where
  name := "var"
  parameters := [⟨"[variable", .string⟩, ⟨"[value]]", .string⟩]
  usage := ("Print all, print single variable or set value to single variable\n" ++
    "  (default) - print all variables and their values defined in database definitions files\n" ++
    "  variable  - if only parameter print value for this variable\n" ++
    "  value     - set the value to variable\n" : String)

/-- A variable needs a name, and storage of the type of its kind. -/
def checkVariable (v : Variable) : Except Fault Unit :=
  if v.name.isEmpty then .error .noVariableName
  else match v.kind, v.storage with
    | .int, .int _ => .ok ()
    | .int, s => .error (.needsInt v.name s)
    | .double, .double _ => .ok ()
    | .double, s => .error (.needsDouble v.name s)
    | k, _ => .error (.badVariableKind v.name k.code)

/-- What is logged when a variable takes the place of an earlier one. -/
def redefinition (old v : Variable) : Option Bytes :=
  if old.kind = v.kind ∧ old.storage = v.storage then none
  else some (("Warning: iocshRegisterVariable redefining " : Bytes) ++ v.name ++ ".")

/-- Takes a variable that has been checked. -/
def putVariable (t : Table β) (v : Variable) : Registration β :=
  match t.variableCatalogue.file? Variable.name t.registry variableDomain v with
  | none =>
    { table := t, fault := some (.variableRejected v.name),
      notice := some (("iocshRegisterVariable failed to add " : Bytes) ++ v.name ++ ".") }
  | some (catalogue, registry) =>
    { table := { t with variableCatalogue := catalogue, registry }
      notice := (t.variableCatalogue.holder? Variable.name v.name).bind fun e =>
        redefinition e.2 v }

/-- Registers a variable; the first one also registers the command that shows variables. -/
def registerVariable (t : Table β) (varBody : β) (v : Variable) : Registration β :=
  match checkVariable v with
  | .error f => { table := t, fault := some f }
  | .ok () =>
    if t.vars.isEmpty then
      let r := t.put ⟨varSignature, varBody⟩
      match r.fault with
      | some _ => r
      | none => r.table.putVariable v
    else t.putVariable v

/-- The command with a name. -/
def findCommand? (t : Table β) (name : Bytes) : Option (Command β) :=
  t.commandCatalogue.find? (t.registry.find? commandDomain name)

/-- The variable with a name. -/
def findVariable? (t : Table β) (name : Bytes) : Option Variable :=
  t.variableCatalogue.find? (t.registry.find? variableDomain name)

/-- The commands whose names match a pattern. -/
def matching (t : Table β) (pattern : Bytes) : List (Command β) :=
  t.commands.filter fun c => Glob.isMatch pattern c.name

/-- The variables whose names match a pattern. -/
def matchingVariables (t : Table β) (pattern : Bytes) : List Variable :=
  t.vars.filter fun v => Glob.isMatch pattern v.name

/-- Releases every definition. -/
def clear (t : Table β) : Table β :=
  { t with
    commandCatalogue := t.commandCatalogue.clear
    variableCatalogue := t.variableCatalogue.clear }

/-- Stores a value that is no definition in the index; none if it has no name. -/
def plant? (t : Table β) (domain name : Bytes) : Option (Table β) :=
  let all : Registry Mark := { t.registry with refused := {} }
  (all.add? domain name .foreign).map fun r =>
    { t with registry := { r with refused := t.registry.refused } }

end Table

end ConsoleShell
