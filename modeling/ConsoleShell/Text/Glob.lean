/-
Patterns for names.

`*` matches any text without a slash, `?` one character that is no slash, `[…]` one
character of a class (`[^…]` one outside it), and a backslash makes the next character
literal.  A malformed pattern matches nothing.
-/
import ConsoleShell.Text.Utf8

namespace ConsoleShell

namespace Glob

/-- One element of a pattern. -/
inductive Element where
  | literal (bytes : Bytes)
  | anyChar
  | anyText
  /-- The ranges of a class, and whether the class is negated. -/
  | oneOf (negated : Bool) (ranges : List (Char × Char))
  deriving DecidableEq, Repr

/-- One end of a range in a class: a character that is not special unless escaped. -/
def rangeEnd? : List Utf8.Piece → Option (Char × List Utf8.Piece)
  | [] => none
  | .char '-' :: _ => none
  | .char ']' :: _ => none
  | .char '\\' :: rest =>
    match rest with
    | .char c :: r => if r.isEmpty then none else some (c, r)
    | _ => none
  | .stray _ :: _ => none
  | .char c :: r => if r.isEmpty then none else some (c, r)

/-- The ranges of a class up to its closing bracket; a class has at least one. -/
def ranges? (fuel : Nat) (first : Bool) (ps : List Utf8.Piece) :
    Option (List (Char × Char) × List Utf8.Piece) :=
  match fuel with
  | 0 => none
  | fuel + 1 =>
    match first, ps with
    | false, .char ']' :: r => some ([], r)
    | _, ps =>
      match rangeEnd? ps with
      | none => none
      | some (lo, r) =>
        match r with
        | .char '-' :: t =>
          match rangeEnd? t with
          | none => none
          | some (hi, r) => (ranges? fuel false r).map fun (rs, t) => ((lo, hi) :: rs, t)
        | _ => (ranges? fuel false r).map fun (rs, t) => ((lo, lo) :: rs, t)

/-- The elements of a pattern; none if it is malformed. -/
def parse? (fuel : Nat) (ps : List Utf8.Piece) : Option (List Element) :=
  match fuel with
  | 0 => none
  | fuel + 1 =>
    match ps with
    | [] => some []
    | .char '*' :: r => (parse? fuel r).map (.anyText :: ·)
    | .char '?' :: r => (parse? fuel r).map (.anyChar :: ·)
    | .char '\\' :: r =>
      match r with
      | [] => none
      | p :: t => (parse? fuel t).map (.literal p.bytes :: ·)
    | .char '[' :: r =>
      let (negated, r) := match r with
        | .char '^' :: t => (true, t)
        | _ => (false, r)
      match ranges? fuel true r with
      | none => none
      | some (rs, t) => (parse? fuel t).map (.oneOf negated rs :: ·)
    | p :: r => (parse? fuel r).map (.literal p.bytes :: ·)

/-- The text with its first character taken off, and that character; a stray byte counts as
one. -/
def firstChar? : Bytes → Option (Char × Bytes)
  | [] => none
  | a :: r =>
    match Utf8.scalar? a r with
    | some (c, k) => some (c, r.drop k)
    | none => some (Utf8.replacement, r)

/-- A test holds of the text after some bytes before its next slash. -/
def afterSome (test : Bytes → Bool) : Bytes → Bool
  | [] => test []
  | c :: s => test (c :: s) || (c != Ascii.slash && afterSome test s)

/-- The elements match the whole text. -/
def matchElements : List Element → Bytes → Bool
  | [], text => text.isEmpty
  | .anyText :: es, text => afterSome (matchElements es) text
  | .literal bs :: es, text => text.startsWith bs && matchElements es (text.drop bs.length)
  | .anyChar :: es, text =>
    match firstChar? text with
    | none => false
    | some (c, rest) => c != '/' && matchElements es rest
  | .oneOf negated rs :: es, text =>
    match firstChar? text with
    | none => false
    | some (c, rest) =>
      (rs.any fun (lo, hi) => lo ≤ c && c ≤ hi) != negated && matchElements es rest

/-- The pattern matches the name. -/
def isMatch (pattern name : Bytes) : Bool :=
  match parse? (pattern.length + 1) (Utf8.decode pattern) with
  | none => false
  | some es => matchElements es name

end Glob

end ConsoleShell
