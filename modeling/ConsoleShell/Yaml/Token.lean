/-
Tokens of YAML.

The text of the first document, and a little more, is cut into tokens.  Indentation shows
as tokens that start and end blocks.  A scalar that turns out to be a key gets a token for
the key in front of it, so a position that may be the start of a key is remembered.
-/
import ConsoleShell.Yaml.Token.Scalar

namespace ConsoleShell

namespace Yaml

/-- A token. -/
inductive Token where
  | directive (text : List Char)
  | documentStart
  | documentEnd
  | blockSequence
  | blockMapping
  | blockEnd
  | flowSequence
  | flowSequenceEnd
  | flowMapping
  | flowMappingEnd
  /-- The hyphen before an item. -/
  | item
  /-- The comma between the parts of a flow collection. -/
  | comma
  | key
  | value
  | alias (name : List Char)
  | anchor (name : List Char)
  | tag (text : List Char)
  | scalar (text : List Char) (plain : Bool)
  | endOfText
  /-- The text cannot be cut into tokens from here on. -/
  | invalid
  deriving DecidableEq, Repr

namespace Token

/-- A position that may be the start of a key. -/
structure Candidate where
  /-- The number of tokens before it. -/
  before : Nat
  /-- It is a fault if no key is found here. -/
  required : Bool
  line : Nat
  column : Nat
  index : Nat
  deriving DecidableEq, Repr

/-- The state of the cutting. -/
structure Lexer where
  cursor : Cursor
  /-- The column of the innermost block, and those of the blocks around it. -/
  indent : Int := -1
  indents : List Int := []
  /-- How many flow collections are open. -/
  flow : Nat := 0
  keyAllowed : Bool := true
  /-- The candidates for keys, one for each open flow collection and one outside of them. -/
  candidates : List (Option Candidate) := [none]
  tokens : Array Token := #[]
  finished : Bool := false
  deriving Repr

namespace Lexer

/-- Adds a token. -/
def push (l : Lexer) (t : Token) : Lexer := { l with tokens := l.tokens.push t }

/-- The cursor is moved. -/
def goTo (l : Lexer) (cursor : Cursor) : Lexer := { l with cursor }

/-- Sets whether a key may start at the next token. -/
def allowKey (l : Lexer) (keyAllowed : Bool) : Lexer := { l with keyAllowed }

/-- Replaces the candidate of the innermost collection. -/
def setCandidate (l : Lexer) (c : Option Candidate) : Lexer :=
  { l with candidates := c :: l.candidates.tail }

/-- The candidate of the innermost collection. -/
def candidate? (l : Lexer) : Option Candidate := l.candidates.head?.join

/-- Gives up the candidate; none if it was required. -/
def dropCandidate? (l : Lexer) : Option Lexer :=
  if l.candidate?.any Candidate.required then none else some (l.setCandidate none)

/-- Remembers the current position as a candidate, if keys are allowed here. -/
def saveCandidate? (l : Lexer) : Option Lexer :=
  if !l.keyAllowed then some l
  else do
    let l ← l.dropCandidate?
    return l.setCandidate (some {
      before := l.tokens.size, required := l.flow == 0 && l.indent == l.cursor.column,
      line := l.cursor.line, column := l.cursor.column, index := l.cursor.index })

/-- Opens a block at a column, unless one is open there; its token goes to the given place. -/
def openBlock (l : Lexer) (column : Int) (place : Nat) (t : Token) : Lexer :=
  if l.flow != 0 || column ≤ l.indent then l
  else { l with indents := l.indent :: l.indents, indent := column,
                tokens := l.tokens.insertIdxIfInBounds place t }

/-- Closes the blocks that begin after a column, given the indents around the innermost one. -/
def closeWithin (column : Int) : Lexer → List Int → Lexer
  | l, [] => l
  | l, outer :: indents =>
    if column < l.indent then
      closeWithin column { l.push .blockEnd with indent := outer, indents } indents
    else l

/-- Closes the blocks that begin after a column. -/
def closeBlocks (l : Lexer) (column : Int) : Lexer :=
  if l.flow != 0 then l else closeWithin column l l.indents

/-! ### Steps -/

/-- Moves to the next token over blanks, comments and line breaks; after a line break a key may
start.  A tab is no blank where a key may start. -/
def skipSpace : Nat → Lexer → Lexer
  | 0, l => l
  | fuel + 1, l =>
    let tabs := l.flow != 0 || !l.keyAllowed
    let c := l.cursor.skipWhile fun x => x == ' ' || (tabs && x == '\t')
    let c := if c.isAt 0 '#' then c.skipWhile fun x => !isBreak x else c
    if c.breakAt 0 then
      skipSpace fuel { l with cursor := c.readBreak.2, keyAllowed := l.keyAllowed || l.flow == 0 }
    else l.goTo c

/-- Ends the text. -/
def finish? (l : Lexer) : Option Lexer := do
  let l ← (l.closeBlocks (-1)).dropCandidate?
  return { l.push .endOfText with finished := true }

/-- A token at the beginning of a line that ends all blocks. -/
def atMargin? (l : Lexer) (t : Token) (next : Cursor) : Option Lexer := do
  let l ← (l.closeBlocks (-1)).dropCandidate?
  return (l.allowKey false).push t |>.goTo next

/-- Opens a flow collection. -/
def openFlow? (l : Lexer) (t : Token) : Option Lexer := do
  let l ← l.saveCandidate?
  let l := { l with flow := l.flow + 1, candidates := none :: l.candidates }
  return (l.allowKey true).push t |>.goTo (l.cursor.skip 1)

/-- Closes a flow collection. -/
def closeFlow? (l : Lexer) (t : Token) : Option Lexer := do
  let l ← l.dropCandidate?
  let l := if l.flow = 0 then l
    else { l with flow := l.flow - 1, candidates := l.candidates.tail }
  return (l.allowKey false).push t |>.goTo (l.cursor.skip 1)

/-- A comma. -/
def comma? (l : Lexer) : Option Lexer := do
  let l ← l.dropCandidate?
  return (l.allowKey true).push .comma |>.goTo (l.cursor.skip 1)

/-- A hyphen or a question mark, which opens a block. -/
def indicator? (l : Lexer) (t block : Token) (allow : Bool) : Option Lexer := do
  if l.flow == 0 && !l.keyAllowed then none
  let l ← (l.openBlock l.cursor.column l.tokens.size block).dropCandidate?
  return (l.allowKey allow).push t |>.goTo (l.cursor.skip 1)

/-- How far the colon may be from the beginning of a key. -/
abbrev keyReach : Nat := 1024

/-- The candidate, if the current position can still follow a key that starts there; none if
it cannot and the candidate was required. -/
def liveCandidate? (l : Lexer) : Option (Option Candidate) :=
  match l.candidate? with
  | none => some none
  | some k =>
    if k.line < l.cursor.line || k.index + keyReach < l.cursor.index then
      if k.required then none else some none
    else some (some k)

/-- A colon: what the candidate marks was a key. -/
def value? (l : Lexer) : Option Lexer := do
  let next := l.cursor.skip 1
  match ← l.liveCandidate? with
  | some k =>
    let l := { l with tokens := l.tokens.insertIdxIfInBounds k.before .key }
    let l := (l.openBlock k.column k.before .blockMapping).setCandidate none
    return (l.allowKey false).push .value |>.goTo next
  | none =>
    if l.flow == 0 && !l.keyAllowed then none
    let l := l.openBlock l.cursor.column l.tokens.size .blockMapping
    return (l.allowKey (l.flow == 0)).push .value |>.goTo next

/-- A token that may be the start of a key. -/
def content? (l : Lexer) (read : Cursor → Option (Token × Cursor)) : Option Lexer := do
  let l ← l.saveCandidate?
  let (t, c) ← read l.cursor
  return (l.allowKey false).push t |>.goTo c

/-- The name of an anchor after its indicator. -/
def anchorName? (c : Cursor) : Option (List Char × Cursor) :=
  let c := c.skip 1
  let name := c.rest.takeWhile fun x => x.isAlphanum || x == '_' || x == '-'
  let c := c.skip name.length
  let ends := c.spaceAt 0 || (c.at? 0).any fun x => "?:,]\x7d%@`".toList.contains x
  if name.isEmpty || !ends then none else some (name, c)

/-- A tag, which ends at white space or, in a flow collection, at a comma. -/
def tag? (flow : Bool) (c : Cursor) : Option (List Char × Cursor) :=
  let text := c.rest.takeWhile fun x =>
    !(isBlank x || isBreak x || (flow && ",[]\x7b\x7d".toList.contains x))
  some (text, c.skip text.length)

/-- Block text. -/
def blockText? (l : Lexer) (folded : Bool) : Option Lexer := do
  let l ← l.dropCandidate?
  let (text, c) ← block? folded l.indent (l.cursor.skip 1)
  return (l.allowKey true).push (.scalar text false) |>.goTo c

/-- Plain text; after a line break a key may start. -/
def plainText? (l : Lexer) : Option Lexer := do
  let l ← l.saveCandidate?
  let fuel := l.cursor.rest.length + 1
  let (text, broken, c) ← plain? (l.flow != 0) (l.indent + 1).toNat fuel {} l.cursor
  return (l.allowKey broken).push (.scalar text true) |>.goTo c

/-- Plain text may start here. -/
def startsPlain (l : Lexer) : Bool :=
  let c := l.cursor
  let special := c.spaceAt 0 || (c.at? 0).any fun x => "-?:,[]\x7b\x7d#&*!|>'\"%@`".toList.contains x
  !special || (c.isAt 0 '-' && !c.blankAt 1) ||
    (l.flow == 0 && (c.isAt 0 '?' || c.isAt 0 ':') && !c.spaceAt 1)

/-- Adds the next token. -/
def step? (l : Lexer) : Option Lexer :=
  let l := skipSpace (l.cursor.rest.length + 1) l
  let l := l.closeBlocks l.cursor.column
  let c := l.cursor
  let inFlow := l.flow != 0
  let quoted (double : Bool) := l.content? fun c =>
    (quoted? double (c.rest.length + 1) (c.skip 1)).map fun (t, c) => (.scalar t false, c)
  match c.at? 0 with
  | none => l.finish?
  | some x =>
    if c.column == 0 && x == '%' then
      let line := c.rest.takeWhile fun x => !isBreak x
      l.atMargin? (.directive line) (c.skip line.length)
    else if c.markerAt '-' then l.atMargin? .documentStart (c.skip 3)
    else if c.markerAt '.' then l.atMargin? .documentEnd (c.skip 3)
    else if x == '[' then l.openFlow? .flowSequence
    else if x == '{' then l.openFlow? .flowMapping
    else if x == ']' then l.closeFlow? .flowSequenceEnd
    else if x == '}' then l.closeFlow? .flowMappingEnd
    else if x == ',' then l.comma?
    else if x == '-' && c.spaceAt 1 then l.indicator? .item .blockSequence true
    else if x == '?' && (inFlow || c.spaceAt 1) then
      l.indicator? .key .blockMapping (!inFlow)
    else if x == ':' && (inFlow || c.spaceAt 1) then l.value?
    else if x == '*' then l.content? fun c => (anchorName? c).map fun (n, c) => (.alias n, c)
    else if x == '&' then l.content? fun c => (anchorName? c).map fun (n, c) => (.anchor n, c)
    else if x == '!' then l.content? fun c => (tag? inFlow c).map fun (t, c) => (.tag t, c)
    else if x == '|' && !inFlow then l.blockText? false
    else if x == '>' && !inFlow then l.blockText? true
    else if x == '\'' then quoted false
    else if x == '"' then quoted true
    else if l.startsPlain then l.plainText?
    else none

/-- Adds tokens up to the end of the text or to a place that cannot be cut. -/
def run : Nat → Lexer → Lexer
  | 0, l => l
  | fuel + 1, l =>
    if l.finished then l
    else match l.step? with
      | none => { l.push .invalid with finished := true }
      | some l => run fuel l

end Lexer

/-- The tokens of a text. -/
def scan (cs : List Char) : List Token :=
  (Lexer.run (2 * cs.length + 2) { cursor := { rest := cs } }).tokens.toList

end Token

end Yaml

end ConsoleShell
