/-
References to named values.

A line may refer to a value as `$(NAME)` or `${NAME}`, with a default as `$(NAME=text)`.
Definitions live in a stack of scopes; the innermost definition of a name wins, and names
without a definition are looked up in a fallback.  Values and defaults may contain
references in turn, up to a fixed depth.
-/
import ConsoleShell.Text.Bytes

namespace ConsoleShell

/-- A name with its value. -/
structure Definition where
  name : Bytes
  value : Bytes
  deriving DecidableEq, Repr

/-- The definition as it is written. -/
def Definition.text (d : Definition) : Bytes := d.name ++ [Ascii.equals] ++ d.value

/-- The definitions made in one scope. -/
abbrev Frame := List Definition

namespace Frame

/-- The value of a name. -/
def find? (f : Frame) (name : Bytes) : Option Bytes :=
  (List.find? (fun d => d.name == name) f).map Definition.value

/-- Without the definition of a name. -/
def erase (f : Frame) (name : Bytes) : Frame := List.filter (fun d => d.name != name) f

/-- Defines a name, replacing an earlier definition. -/
def put (f : Frame) (d : Definition) : Frame := d :: erase f d.name

end Frame

/-- A stack of scopes, never empty: the innermost scope and those around it. -/
structure Definitions where
  inner : Frame := []
  outer : List Frame := []
  deriving DecidableEq, Repr

namespace Definitions

/-- The scopes from the innermost to the outermost. -/
def frames (d : Definitions) : List Frame := d.inner :: d.outer

/-- The number of scopes. -/
def depth (d : Definitions) : Nat := d.outer.length + 1

/-- Begins a new innermost scope. -/
def push (d : Definitions) : Definitions := ⟨[], d.inner :: d.outer⟩

/-- Ends the innermost scope.  The outermost scope stays. -/
def pop (d : Definitions) : Definitions :=
  match d.outer with
  | [] => d
  | f :: fs => ⟨f, fs⟩

/-- Defines a name in the innermost scope. -/
def put (d : Definitions) (x : Definition) : Definitions := { d with inner := d.inner.put x }

/-- Makes several definitions in the innermost scope, in order. -/
def install (d : Definitions) (xs : List Definition) : Definitions := xs.foldl put d

/-- Removes a name from every scope. -/
def clear (d : Definitions) (name : Bytes) : Definitions :=
  ⟨d.inner.erase name, d.outer.map fun f => Frame.erase f name⟩

/-- The value of a name: its innermost definition, else what the fallback knows. -/
def lookup (d : Definitions) (fallback : Bytes → Option Bytes) (name : Bytes) : Option Bytes :=
  (d.frames.findSome? fun f => Frame.find? f name).or (fallback name)

end Definitions

namespace Substitution

/-- Why a text cannot be expanded. -/
inductive Fault where
  /-- A reference without its closing bracket, with the text from its dollar sign on. -/
  | unterminated (text : Bytes)
  /-- References nest too deeply. -/
  | tooDeep
  deriving DecidableEq, Repr

/-- An expanded text, with the names in it that have no value. -/
structure Expansion where
  text : Bytes
  undefined : List Bytes
  deriving DecidableEq, Repr

/-- A text that needs no expansion. -/
def Expansion.plain (text : Bytes) : Expansion := ⟨text, []⟩

/-- One expansion after the other. -/
def Expansion.append (a b : Expansion) : Expansion := ⟨a.text ++ b.text, a.undefined ++ b.undefined⟩

/-- The byte opens a reference or a bracket inside one. -/
def isOpen (c : UInt8) : Bool := c == Ascii.openParen || c == Ascii.openBrace

/-- The byte closes a bracket of either kind. -/
def isClose (c : UInt8) : Bool := c == Ascii.closeParen || c == Ascii.closeBrace

/-- Splits a text at the bracket that closes an open one, with `level` further brackets open;
the two kinds of bracket are not told apart. -/
def closeBracket (level : Nat) : Bytes → Option (Bytes × Bytes)
  | [] => none
  | c :: s =>
    if isOpen c then (closeBracket (level + 1) s).map fun (a, b) => (c :: a, b)
    else if isClose c then
      if level = 0 then some ([], s)
      else (closeBracket (level - 1) s).map fun (a, b) => (c :: a, b)
    else (closeBracket level s).map fun (a, b) => (c :: a, b)

theorem closeBracket_length {level : Nat} {s a b : Bytes} (h : closeBracket level s = some (a, b)) :
    b.length < s.length := by
  induction s generalizing level a b with
  | nil => simp [closeBracket] at h
  | cons c s ih =>
    have step {n : Nat} (hn : (closeBracket n s).map (fun (x, y) => (c :: x, y)) = some (a, b)) :
        b.length < (c :: s).length := by
      simp only [Option.map_eq_some_iff, Prod.mk.injEq, Prod.exists] at hn
      obtain ⟨x, y, hxy, -, rfl⟩ := hn
      have := ih hxy
      simp only [List.length_cons]
      omega
    rw [closeBracket] at h
    split at h
    · exact step h
    · split at h
      · split at h
        · simp only [Option.some.injEq, Prod.mk.injEq] at h
          simp [h.2]
        · exact step h
      · exact step h

/-- Splits the body of a reference at its first `=` outside brackets, if it has one. -/
def splitDefault (level : Int) : Bytes → Bytes × Option Bytes
  | [] => ([], none)
  | c :: s =>
    if c == Ascii.equals && level == 0 then ([], some s)
    else
      let level := if isOpen c then level + 1 else if isClose c then level - 1 else level
      let (name, default) := splitDefault level s
      (c :: name, default)

/-- Expands the references of a text.  `reference` gives the expansion of the body of a
reference.  With `quoting`, text in single quotes and a byte after a backslash outside
quotes are copied as they are; `quote` is the quote that is open. -/
def expandText (reference : Bytes → Except Fault Expansion) (quoting : Bool) :
    Option UInt8 → Bytes → Except Fault Expansion
  | _, [] => .ok (.plain [])
  | quote, c :: s =>
    let copy (quote : Option UInt8) : Except Fault Expansion :=
      (expandText reference quoting quote s).map (Expansion.plain [c]).append
    if quoting && quote.isNone && c == Ascii.backslash then
      match s with
      | [] => .ok (.plain [c])
      | d :: r => (expandText reference quoting quote r).map (Expansion.plain [c, d]).append
    else if quoting && quote.isNone && (c == Ascii.singleQuote || c == Ascii.doubleQuote) then
      copy (some c)
    else if quoting && quote == some c then copy none
    else if quote == some Ascii.singleQuote || c != Ascii.dollar then copy quote
    else
      match s with
      | [] => .ok (.plain [c])
      | o :: r =>
        if isOpen o then
          match _h : closeBracket 0 r with
          | none => .error (.unterminated (c :: o :: r))
          | some (body, rest) =>
            match reference body with
            | .error e => .error e
            | .ok x => (expandText reference quoting quote rest).map x.append
        else copy quote
termination_by _ s => s.length
decreasing_by
  all_goals simp only [List.length_cons]
  · omega
  · omega
  · have := closeBracket_length _h
    omega

/-- How deeply references may nest. -/
abbrev maxDepth : Nat := 100

/-- The reference as it is shown when its name has no value. -/
def undefinedReference (name : Bytes) : Bytes := ("$(" : Bytes) ++ name ++ ",undefined)"

/-- The value of the reference with the given body: the name is expanded first, then its
value or else the default; `expand` expands the texts one level further in. -/
def reference (lookup : Bytes → Option Bytes) (expand : Bytes → Except Fault Expansion)
    (body : Bytes) : Except Fault Expansion :=
  let (name, default) := splitDefault 0 body
  match expand name with
  | .error e => .error e
  | .ok name =>
    let rest := match lookup name.text, default with
      | some value, _ => expand value
      | none, some text => expand text
      | none, none => .ok ⟨undefinedReference name.text, [name.text]⟩
    rest.map fun x => ⟨x.text, name.undefined ++ x.undefined⟩

/-- Expands a value or default, with `n` levels left. -/
def expandLevel (lookup : Bytes → Option Bytes) : Nat → Bytes → Except Fault Expansion
  | 0, _ => .error .tooDeep
  | n + 1, text => expandText (reference lookup (expandLevel lookup n)) false none text

/-- Expands the references of a line. -/
def expand (lookup : Bytes → Option Bytes) (raw : Bytes) : Except Fault Expansion :=
  expandText (reference lookup (expandLevel lookup maxDepth)) true none raw

/-- What is wrong with a line whose references cannot all be replaced. -/
inductive Error where
  | fault (f : Fault)
  /-- Names without a value, and the line they stand in. -/
  | undefined (names : List Bytes) (input : Bytes)
  deriving DecidableEq, Repr

/-- The diagnostic for a line whose references cannot all be replaced. -/
def Error.message : Error → Bytes
  | .fault (.unterminated text) => ("unterminated macro reference: " : Bytes) ++ text
  | .fault .tooDeep => "recursive macro definition"
  | .undefined names input =>
    ("macro " : Bytes) ++ Bytes.join ", " names ++ " is undefined (expanding string " ++ input ++ ")"

/-- Expands the references of a line, all of which must have values. -/
def expandDefined (lookup : Bytes → Option Bytes) (raw : Bytes) : Except Error Bytes :=
  match expand lookup raw with
  | .error f => .error (.fault f)
  | .ok x => if x.undefined.isEmpty then .ok x.text else .error (.undefined x.undefined raw)

end Substitution

end ConsoleShell
