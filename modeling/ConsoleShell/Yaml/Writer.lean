/-
Writing YAML in block style.

The keys of a mapping are sorted, numbers inside them by their value.  Text is written
plainly where that reads back as the same text, otherwise in quotes; text with line breaks
is written as a block.  Long text is folded at spaces after column 80.
-/
import ConsoleShell.Json.Value
import ConsoleShell.Yaml.Cursor
import ConsoleShell.Yaml.Scalar

namespace ConsoleShell

namespace Yaml

namespace Writer

/-! ### The order of keys -/

/-- A letter; characters beyond ASCII count as letters. -/
def isLetter (c : Char) : Bool := c.isAlpha || 0x80 ≤ c.toNat

/-- The number at the front of a text, continuing a number, and how many digits it has. -/
def leadingNumber (start : Nat) (cs : List Char) : Nat × Nat :=
  let digits := cs.takeWhile Char.isDigit
  (digits.foldl (fun n d => n * 10 + (d.toNat - 48)) start, digits.length)

/-- The common beginning of two keys ends in a number that is not zero; `common` is that
beginning in reverse. -/
def insideNumber (common : List Char) : Bool := (common.takeWhile Char.isDigit).any (· != '0')

/-- Two keys are in order: letters after other characters, numbers by their value. -/
def keyBefore (common : List Char) : List Char → List Char → Bool
  | [], _ => true
  | _ :: _, [] => false
  | a :: as, b :: bs =>
    if a = b then keyBefore (a :: common) as bs
    else if isLetter a && isLetter b then a < b
    else if isLetter a || isLetter b then isLetter b
    else
      let start := if (a == '0' || b == '0') && insideNumber common then 1 else 0
      let (m, i) := leadingNumber start (a :: as)
      let (n, j) := leadingNumber start (b :: bs)
      if m ≠ n then m < n else if i ≠ j then i < j else a < b

/-! ### What a text looks like -/

/-- A character that may stand unescaped. -/
def isPlainChar (c : Char) : Bool :=
  c == '\n' || (' ' ≤ c && c ≤ '~') || ('\u00A0' ≤ c && c ≤ '\uD7FF' && !isBreak c) ||
    ('\uE000' ≤ c && c ≤ '\uFFFD' && c != '\uFEFF')

/-- The facts about a text on which the choice of its style depends. -/
structure Look where
  /-- A character would be taken for an indicator. -/
  indicator : Bool := false
  /-- A character has to be escaped. -/
  special : Bool := false
  breaks : Bool := false
  /-- The text begins or ends with a space or a break. -/
  padded : Bool := false
  endsInSpace : Bool := false
  /-- A space follows a break. -/
  breakSpace : Bool := false
  /-- A break follows a space. -/
  spaceBreak : Bool := false
  deriving DecidableEq, Repr

/-- A character is an indicator at its place: at the front of a text or inside it. -/
def isIndicator (first preceded followed : Bool) (c : Char) : Bool :=
  if first then
    "#,[]\x7b\x7d&*!|>'\"%@`".toList.contains c || ((c == '?' || c == ':' || c == '-') && followed)
  else (c == ':' && followed) || (c == '#' && preceded)

/-- Looks at the characters after `before`. -/
def lookFrom (look : Look) (before : Option Char) : List Char → Look
  | [] => look
  | c :: cs =>
    let preceded := before.all fun b => isBlank b || isBreak b
    let followed := cs.head?.all isBlank
    let first := before.isNone
    let last := cs.isEmpty
    let padding := c == ' ' || isBreak c
    lookFrom {
      indicator := look.indicator || isIndicator first preceded followed c
      special := look.special || !isPlainChar c
      breaks := look.breaks || isBreak c
      padded := look.padded || (padding && (first || last))
      endsInSpace := look.endsInSpace || (c == ' ' && last)
      breakSpace := look.breakSpace || (c == ' ' && before.any isBreak)
      spaceBreak := look.spaceBreak || (isBreak c && before == some ' ') } (some c) cs

/-- Looks at a text. -/
def look (cs : List Char) : Look :=
  let marker := cs.take 3 == ['-', '-', '-'] || cs.take 3 == ['.', '.', '.']
  lookFrom { indicator := marker } none cs

/-- The text may stand without quotes. -/
def Look.allowsPlain (l : Look) : Bool :=
  !(l.indicator || l.special || l.breaks || l.padded || l.breakSpace || l.spaceBreak)

/-- The text may stand between single quotes. -/
def Look.allowsSingle (l : Look) : Bool := !(l.special || l.breakSpace || l.spaceBreak)

/-- The text may stand as a block. -/
def Look.allowsBlock (l : Look) : Bool := !(l.special || l.endsInSpace || l.spaceBreak)

/-- How a text is written. -/
inductive Style where
  | plain
  | single
  | double
  | block
  deriving DecidableEq, Repr

/-- The style of a text. -/
def styleOf (key : Bool) (s : Bytes) (cs : List Char) : Style :=
  let l := look cs
  if cs.contains '\n' then if l.allowsBlock && !key then .block else .double
  else if !Scalar.readsAsString s then .double
  else if l.breaks && key then .double
  else if l.allowsPlain then .plain
  else if l.allowsSingle then .single
  else .double

/-! ### Scalars -/

/-- The column after which text is folded. -/
abbrev width : Nat := 80

/-- A new line with an indentation. -/
def newLine (indent : Nat) : List Char := '\n' :: List.replicate indent ' '

/-- How a character stands between double quotes. -/
def escape (c : Char) : List Char :=
  let hex (letter : Char) (digits : Nat) : List Char :=
    '\\' :: letter :: ((Bytes.ofNatBase 16 c.toNat).padStart digits 48).map fun b =>
      (Char.ofNat b.toNat).toUpper
  match c.toNat with
  | 0 => ['\\', '0']
  | 7 => ['\\', 'a']
  | 8 => ['\\', 'b']
  | 9 => ['\\', 't']
  | 10 => ['\\', 'n']
  | 11 => ['\\', 'v']
  | 12 => ['\\', 'f']
  | 13 => ['\\', 'r']
  | 27 => ['\\', 'e']
  | 34 => ['\\', '"']
  | 92 => ['\\', '\\']
  | 0x85 => ['\\', 'N']
  | 0xA0 => ['\\', '_']
  | 0x2028 => ['\\', 'L']
  | 0x2029 => ['\\', 'P']
  | n =>
    if n ≤ 0xFF then hex 'x' 2 else if n ≤ 0xFFFF then hex 'u' 4 else hex 'U' 8

/-- The characters of a text in a style, folded at single spaces if `fold` allows it. -/
def fold (style : Style) (folds : Bool) (indent : Nat) :
    Nat → Option Char → List Char → List Char
  | _, _, [] => []
  | column, before, c :: cs =>
    let inside := style = .plain || (before.isSome && !cs.isEmpty)
    if c == ' ' then
      if folds && before != some ' ' && width < column && inside &&
          (style = .double || cs.head? != some ' ') then
        let mark := if cs.head? == some ' ' then ['\\'] else []
        newLine indent ++ mark ++ fold style folds indent (indent + mark.length) (some c) cs
      else c :: fold style folds indent (column + 1) (some c) cs
    else
      let text := match style with
        | .single => if c == '\'' then ['\'', '\''] else [c]
        | .double => if !isPlainChar c || c == '\n' || c == '"' || c == '\\' then escape c else [c]
        | _ => [c]
      text ++ fold style folds indent (column + text.length) (some c) cs

/-- The head of a block: an indentation if the text begins with white space, and what happens
to the breaks at its end. -/
def blockHead (cs : List Char) : List Char :=
  let hint := if cs.head?.any fun c => c == ' ' || isBreak c then ['2'] else []
  let chomp := match cs.reverse with
    | '\n' :: '\n' :: _ => ['+']
    | ['\n'] => ['+']
    | '\n' :: _ => []
    | _ => ['-']
  '|' :: hint ++ chomp

/-- The lines of a block, each with its indentation and its end. -/
def blockLines (indent : Nat) : Bool → List Char → List Char
  | fresh, [] => if fresh then [] else ['\n']
  | fresh, c :: cs =>
    if c == '\n' then '\n' :: blockLines indent true cs
    else (if fresh then List.replicate indent ' ' else []) ++ c :: blockLines indent false cs

/-- A text at a column, with a break at its end. -/
def string (key : Bool) (indent column : Nat) (s : Bytes) : List Char :=
  let cs := Utf8.chars s
  let style := styleOf key s cs
  match style with
  | .plain => fold style (!key) indent column none cs
  | .single => '\'' :: fold style (!key) indent (column + 1) none cs ++ ['\'']
  | .double => '"' :: fold style (!key) indent (column + 1) none cs ++ ['"']
  | .block => blockHead cs ++ '\n' :: blockLines indent true cs

/-- The text of a scalar, without a break at its end unless it is a block. -/
def scalar (key : Bool) (indent column : Nat) : Json → List Char
  | .null => "null".toList
  | .bool b => (if b then "true" else "false").toList
  | .number t => Utf8.chars t
  | .string s => string key indent column s
  | .array _ => "[]".toList
  | .object _ => "\x7b\x7d".toList

/-- Ends the line unless it has ended. -/
def endLine (cs : List Char) : List Char := if cs.getLast? == some '\n' then cs else cs ++ ['\n']

/-! ### Collections -/

/-- The longest key that stands on a line with its value. -/
abbrev simpleKey : Nat := 128

/-- A key at the beginning of a line, with the colon after it. -/
def keyText (indent : Nat) (k : Bytes) : List Char :=
  let cs := Utf8.chars k
  if (look cs).breaks || simpleKey < k.length then
    endLine ('?' :: ' ' :: string false (indent + 2) (indent + 2) k) ++
      List.replicate indent ' ' ++ [':']
  else string true indent indent k ++ [':']

/-- Puts a key with its value at its place. -/
def insertPair (k : Bytes) (v : Json) : List (Bytes × Json) → List (Bytes × Json)
  | [] => [(k, v)]
  | (x, w) :: rest =>
    if keyBefore [] (Utf8.chars k) (Utf8.chars x) then (k, v) :: (x, w) :: rest
    else (x, w) :: insertPair k v rest

/-- The lines of a value, each step of `fuel` taking one level.  `inline` says that the first
line has been indented. -/
def lines : Nat → Nat → Bool → Json → List Char
  | 0, _, _, _ => []
  | fuel + 1, indent, inline, v =>
    let margin (first : Bool) := if first && inline then [] else List.replicate indent ' '
    match v with
    | .object (p :: ps) =>
      let sorted := (p :: ps).foldr (fun (k, v) rest => insertPair k v rest) []
      (sorted.mapIdx fun i (k, v) =>
        let head := margin (i == 0) ++ keyText indent k
        match v with
        | .object (_ :: _) => head ++ '\n' :: lines fuel (indent + 2) false v
        | .array (_ :: _) => head ++ '\n' :: lines fuel indent false v
        | v =>
          let column := indent + (keyText indent k).length + 1
          endLine (head ++ ' ' :: scalar false (indent + 2) column v)).flatten
    | .array (x :: xs) =>
      ((x :: xs).mapIdx fun i v =>
        let head := margin (i == 0) ++ ['-', ' ']
        match v with
        | .object (_ :: _) => head ++ lines fuel (indent + 2) true v
        | .array (_ :: _) => head ++ lines fuel (indent + 2) true v
        | v => endLine (head ++ scalar false (indent + 2) (indent + 2) v)).flatten
    | v => endLine (margin true ++ scalar false 0 0 v)

/-- How deep the values of this library are nested at most. -/
abbrev maxDepth : Nat := 100

end Writer

/-- A value as a YAML document. -/
def render (v : Json) : Bytes := Utf8.encode (Writer.lines Writer.maxDepth 0 false v)

end Yaml

end ConsoleShell
