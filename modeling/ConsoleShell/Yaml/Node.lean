/-
The structure of a YAML document.

Tokens are put together to a tree of scalars, sequences and mappings, in which aliases are
replaced by what they stand for.  The recursion is bounded by fuel, of which the number of
tokens is enough.
-/
import ConsoleShell.Yaml.Scalar
import ConsoleShell.Yaml.Token

namespace ConsoleShell

namespace Yaml

/-- A part of a document. -/
inductive Node where
  | scalar (text : Bytes) (plain : Bool) (tag : Option Bytes)
  | sequence (items : List Node)
  | mapping (pairs : List (Node × Node))

namespace Node

/-- What stands where nothing is written. -/
def empty : Node := .scalar [] true none

/-- The tokens that are left, and the nodes with names. -/
structure Parser where
  tokens : List Token
  anchors : List (List Char × Node) := []

/-- An action on the tokens that are left. -/
abbrev ParserM := StateT Parser Option

/-- The next token. -/
def peek : ParserM Token := do return (← get).tokens.headD .invalid

/-- Skips a token. -/
def advance : ParserM Unit := modify fun p => { p with tokens := p.tokens.tail }

/-- There is no node. -/
def fail {α : Type} : ParserM α := fun _ => none

/-- The properties that may stand before a node. -/
structure Properties where
  anchor : Option (List Char) := none
  tag : Option (List Char) := none

/-- Reads the properties before a node, each at most once. -/
def properties : ParserM Properties := do
  match ← peek with
  | .anchor name =>
    advance
    match ← peek with
    | .tag t =>
      advance
      return ⟨some name, some t⟩
    | _ => return ⟨some name, none⟩
  | .tag t =>
    advance
    match ← peek with
    | .anchor name =>
      advance
      return ⟨some name, some t⟩
    | _ => return ⟨none, some t⟩
  | _ => return {}

/-- Gives a node the name of its anchor. -/
def named (p : Properties) (n : Node) : ParserM Node := do
  match p.anchor with
  | none => return n
  | some name =>
    modify fun s => { s with anchors := (name, n) :: s.anchors }
    return n

/-- The node that an alias stands for. -/
def aliased (name : List Char) : ParserM Node := do
  match (← get).anchors.find? fun a => a.1 == name with
  | some (_, n) => return n
  | none => fail

/-- A node, if the next token does not belong to a list of ends; otherwise nothing is there. -/
def orEmpty (ends : List Token) (node : ParserM Node) : ParserM Node := do
  if ends.contains (← peek) then return empty else node

mutual

/-- A node.  Inside a mapping a sequence may stand without further indentation. -/
def node : Nat → Bool → Bool → ParserM Node
  | 0, _, _ => fail
  | fuel + 1, block, indentless => do
    match ← peek with
    | .alias name =>
      advance
      aliased name
    | _ =>
      let p ← properties
      let t ← peek
      match t with
      | .scalar text plain =>
        advance
        named p (.scalar (Utf8.encode text) plain (p.tag.map Utf8.encode))
      | .flowSequence =>
        advance
        named p (.sequence (← flowItems fuel true))
      | .flowMapping =>
        advance
        named p (.mapping (← flowPairs fuel true))
      | _ =>
        if indentless && t == .item then named p (.sequence (← looseItems fuel))
        else if block && t == .blockSequence then
          advance
          named p (.sequence (← blockItems fuel))
        else if block && t == .blockMapping then
          advance
          named p (.mapping (← blockPairs fuel))
        else if p.anchor.isSome || p.tag.isSome then
          named p (.scalar [] true (p.tag.map Utf8.encode))
        else fail

/-- The items of a block sequence. -/
def blockItems : Nat → ParserM (List Node)
  | 0 => fail
  | fuel + 1 => do
    match ← peek with
    | .item =>
      advance
      let n ← orEmpty [.item, .blockEnd] (node fuel true false)
      return n :: (← blockItems fuel)
    | .blockEnd =>
      advance
      return []
    | _ => fail

/-- The items of a sequence without further indentation. -/
def looseItems : Nat → ParserM (List Node)
  | 0 => fail
  | fuel + 1 => do
    match ← peek with
    | .item =>
      advance
      let n ← orEmpty [.item, .key, .value, .blockEnd] (node fuel true false)
      return n :: (← looseItems fuel)
    | _ => return []

/-- The pairs of a block mapping. -/
def blockPairs : Nat → ParserM (List (Node × Node))
  | 0 => fail
  | fuel + 1 => do
    let ends := [Token.key, .value, .blockEnd]
    match ← peek with
    | .key =>
      advance
      let k ← orEmpty ends (node fuel true true)
      let v ← blockValue fuel
      return (k, v) :: (← blockPairs fuel)
    | .blockEnd =>
      advance
      return []
    | _ => fail

/-- The value of a pair of a block mapping. -/
def blockValue : Nat → ParserM Node
  | 0 => fail
  | fuel + 1 => do
    match ← peek with
    | .value =>
      advance
      orEmpty [.key, .value, .blockEnd] (node fuel true true)
    | _ => return empty

/-- The items of a flow sequence; a pair is a mapping by itself. -/
def flowItems : Nat → Bool → ParserM (List Node)
  | 0, _ => fail
  | fuel + 1, first => do
    if (← peek) == .flowSequenceEnd then
      advance
      return []
    if !first then
      if (← peek) == .comma then advance else fail
    match ← peek with
    | .flowSequenceEnd =>
      advance
      return []
    | .key =>
      advance
      let k ← orEmpty [.value, .comma, .flowSequenceEnd] (node fuel false false)
      let v ← flowValue fuel .flowSequenceEnd
      return .mapping [(k, v)] :: (← flowItems fuel false)
    | _ =>
      let n ← node fuel false false
      return n :: (← flowItems fuel false)

/-- The pairs of a flow mapping; a key may stand without a value. -/
def flowPairs : Nat → Bool → ParserM (List (Node × Node))
  | 0, _ => fail
  | fuel + 1, first => do
    if (← peek) == .flowMappingEnd then
      advance
      return []
    if !first then
      if (← peek) == .comma then advance else fail
    match ← peek with
    | .flowMappingEnd =>
      advance
      return []
    | .key =>
      advance
      let k ← orEmpty [.value, .comma, .flowMappingEnd] (node fuel false false)
      let v ← flowValue fuel .flowMappingEnd
      return (k, v) :: (← flowPairs fuel false)
    | _ =>
      let k ← node fuel false false
      return (k, empty) :: (← flowPairs fuel false)

/-- The value of a pair of a flow collection. -/
def flowValue : Nat → Token → ParserM Node
  | 0, _ => fail
  | fuel + 1, close => do
    if (← peek) == .value then
      advance
      orEmpty [.comma, close] (node fuel false false)
    else return empty

end

/-- A directive that says that a document is written in version 1.1. -/
def isVersion (text : List Char) : Bool :=
  match ((String.ofList text).splitOn " ").filter (· != "") with
  | name :: version :: rest =>
    name == "%YAML" && version == "1.1" && (rest.headD "#").startsWith "#"
  | _ => false

/-- The first document, if the text has one; fails where the text is malformed. -/
def document (fuel : Nat) : ParserM (Option Node) := do
  match ← peek with
  | .endOfText => return none
  | .directive text =>
    if !isVersion text then fail
    advance
    if (← peek) != .documentStart then fail
    advance
  | .documentStart => advance
  | _ => pure ()
  let ends := [Token.documentStart, .documentEnd, .endOfText]
  let n ← match ← peek with
    | .directive _ => pure empty
    | _ => orEmpty ends (node fuel true false)
  if (← peek) == .invalid then fail
  return some n

/-- The first document of a text, nothing for an empty one; none if the text is malformed. -/
def ofBytes? (s : Bytes) : Option (Option Node) := do
  let cs ← characters? s
  let tokens := Token.scan cs
  let (n, _) ← (document (2 * tokens.length + 2)).run { tokens }
  return n

end Node

end Yaml

end ConsoleShell
