/-
Lists of definitions.

Definitions are written `NAME=value` and separated by commas that are neither quoted nor
escaped.  Quotes and escapes of each piece are taken off word by word, and the words of a
piece are joined by single spaces.
-/
import ConsoleShell.Substitution
import ConsoleShell.Text.Quoted
import ConsoleShell.Text.Words

namespace ConsoleShell

namespace DefinitionList

/-- Why a text is not a list of definitions. -/
inductive Fault where
  /-- The list ends inside quotes. -/
  | unbalancedQuote (defs : Bytes)
  /-- A piece of the list has no words. -/
  | badWords (piece : Bytes) (fault : Words.Fault)
  /-- A piece of the list has no name before an equals sign. -/
  | noName (piece : Bytes)
  deriving DecidableEq, Repr

/-- The diagnostic for a text that is not a list of definitions. -/
def Fault.message : Fault → Bytes
  | .unbalancedQuote defs => ("bad macro definitions " : Bytes) ++ defs.quoted ++ ": unbalanced quote"
  | .badWords piece f => ("bad macro definition " : Bytes) ++ piece.quoted ++ ": " ++ f.message
  | .noName piece => ("bad macro definition " : Bytes) ++ piece.quoted ++ ": expected NAME=value"

/-- Puts bytes in front of the first piece. -/
def extend (text : Bytes) : List Bytes → List Bytes
  | [] => [text]
  | p :: ps => (text ++ p) :: ps

/-- The pieces between the commas that are neither quoted nor escaped; none if the text ends
inside quotes.  A backslash counts everywhere except in single quotes. -/
def pieces? : Option UInt8 → Bytes → Option (List Bytes)
  | none, [] => some [[]]
  | some _, [] => none
  | quote, c :: s =>
    if c == Ascii.backslash && quote != some Ascii.singleQuote then
      match s with
      | [] => (pieces? quote []).map (extend [c])
      | d :: r => (pieces? quote r).map (extend [c, d])
    else
      match quote with
      | some q => (pieces? (if c == q then none else some q) s).map (extend [c])
      | none =>
        if c == Ascii.singleQuote || c == Ascii.doubleQuote then
          (pieces? (some c) s).map (extend [c])
        else if c == Ascii.comma then (pieces? none s).map ([] :: ·)
        else (pieces? none s).map (extend [c])

/-- The definition in a piece, none if the piece has no words. -/
def parsePiece (piece : Bytes) : Except Fault (Option Definition) :=
  match Words.split piece with
  | .error f => .error (.badWords piece f)
  | .ok [] => .ok none
  | .ok words =>
    match (Bytes.join " " words).splitAt? Ascii.equals with
    | none => .error (.noName piece)
    | some ([], _) => .error (.noName piece)
    | some (name, value) => .ok (some ⟨name.trim, value⟩)

/-- The definitions of the pieces, in order; the first piece that is wrong decides. -/
def parsePieces : List Bytes → Except Fault (List Definition)
  | [] => .ok []
  | p :: ps =>
    match parsePiece p with
    | .error f => .error f
    | .ok d =>
      match parsePieces ps with
      | .error f => .error f
      | .ok ds => .ok (d.toList ++ ds)

/-- The definitions of a list. -/
def parse (defs : Bytes) : Except Fault (List Definition) :=
  match pieces? none defs with
  | none => .error (.unbalancedQuote defs)
  | some ps => parsePieces ps

end DefinitionList

end ConsoleShell
