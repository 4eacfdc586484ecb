/-
Byte strings.

Everything the shell reads and prints is a string of bytes: lines, words, names,
values and file contents need not be valid UTF-8.  A byte string is a list, so that
scanners can be written by recursion on it and reasoned about by induction.
Text written in the sources is coerced from `String`.
-/
namespace ConsoleShell

-- a power means the same beside a library of algebra, which has powers of its own
attribute [instance (20000), default_instance 20000] instPowNat

/-- A string of bytes. -/
abbrev Bytes := List UInt8

/-! ### ASCII characters that have a meaning to the shell -/

namespace Ascii

abbrev bell : UInt8 := 7
abbrev backspace : UInt8 := 8
abbrev tab : UInt8 := 9
abbrev newline : UInt8 := 10
abbrev verticalTab : UInt8 := 11
abbrev formFeed : UInt8 := 12
abbrev carriageReturn : UInt8 := 13
abbrev space : UInt8 := 32
abbrev doubleQuote : UInt8 := 34
abbrev hash : UInt8 := 35
abbrev dollar : UInt8 := 36
abbrev percent : UInt8 := 37
abbrev singleQuote : UInt8 := 39
abbrev openParen : UInt8 := 40
abbrev closeParen : UInt8 := 41
abbrev star : UInt8 := 42
abbrev plus : UInt8 := 43
abbrev comma : UInt8 := 44
abbrev minus : UInt8 := 45
abbrev dot : UInt8 := 46
abbrev slash : UInt8 := 47
abbrev colon : UInt8 := 58
abbrev less : UInt8 := 60
abbrev equals : UInt8 := 61
abbrev greater : UInt8 := 62
abbrev question : UInt8 := 63
abbrev openBracket : UInt8 := 91
abbrev backslash : UInt8 := 92
abbrev closeBracket : UInt8 := 93
abbrev caret : UInt8 := 94
abbrev underscore : UInt8 := 95
abbrev openBrace : UInt8 := 123
abbrev closeBrace : UInt8 := 125
abbrev delete : UInt8 := 127

/-- The byte is one of `0` to `9`. -/
def isDigit (c : UInt8) : Bool := 48 ≤ c && c ≤ 57

/-- The byte is an ASCII letter. -/
def isLetter (c : UInt8) : Bool := (65 ≤ c && c ≤ 90) || (97 ≤ c && c ≤ 122)

/-- The byte is space, tab, newline, vertical tab, form feed or carriage return. -/
def isSpace (c : UInt8) : Bool := c == space || (tab ≤ c && c ≤ carriageReturn)

/-- ASCII capitals become small letters; every other byte is kept. -/
def toLower (c : UInt8) : UInt8 := if 65 ≤ c && c ≤ 90 then c + 32 else c

/-- The value of a digit in bases up to 36, letters counting from ten. -/
def digitValue? (c : UInt8) : Option Nat :=
  if isDigit c then some (c.toNat - 48)
  else if isLetter c then some ((toLower c).toNat - 87)
  else none

/-- The digit (below sixteen) with the given value, in small letters. -/
def ofDigit (d : Nat) : UInt8 := if d < 10 then (48 + d).toUInt8 else (87 + d).toUInt8

end Ascii

namespace Bytes

/-- The UTF-8 encoding of a text. -/
def ofString (s : String) : Bytes := s.toUTF8.data.toList

instance : Coe String Bytes := ⟨ofString⟩

/-- Lexicographic order, the shorter of two strings first when one continues the other. -/
def le : Bytes → Bytes → Bool
  | [], _ => true
  | _ :: _, [] => false
  | a :: as, b :: bs => a < b || (a == b && le as bs)

/-- Strict lexicographic order. -/
def lt : Bytes → Bytes → Bool
  | _, [] => false
  | [], _ :: _ => true
  | a :: as, b :: bs => a < b || (a == b && lt as bs)

/-- The strings in lexicographic order, equal ones kept. -/
def sort (xs : List Bytes) : List Bytes := xs.mergeSort le

/-- `s` begins with `p`. -/
def startsWith (s p : Bytes) : Bool := p.isPrefixOf s

/-- `s` ends with `p`. -/
def endsWith (s p : Bytes) : Bool := p.isSuffixOf s

/-- `s` without `p` in front, or `s` itself if it does not begin with `p`. -/
def dropStart (s p : Bytes) : Bytes := if s.startsWith p then s.drop p.length else s

/-- `s` without `p` at its end, or `s` itself if it does not end with `p`. -/
def dropEnd (s p : Bytes) : Bytes := if s.endsWith p then s.take (s.length - p.length) else s

/-- `needle` occurs somewhere in the string. -/
def hasInfix (needle : Bytes) : Bytes → Bool
  | [] => needle.isEmpty
  | c :: s => needle.isPrefixOf (c :: s) || hasInfix needle s

/-- The strings with a separator between neighbours. -/
def join (sep : Bytes) : List Bytes → Bytes
  | [] => []
  | [x] => x
  | x :: y :: rest => x ++ sep ++ join sep (y :: rest)

/-- The parts before and after the first occurrence of a byte. -/
def splitAt? (c : UInt8) : Bytes → Option (Bytes × Bytes)
  | [] => none
  | x :: s => if x == c then some ([], s) else (splitAt? c s).map fun (a, b) => (x :: a, b)

/-- The pieces between the occurrences of a byte; at least one piece. -/
def splitOn (c : UInt8) : Bytes → List Bytes
  | [] => [[]]
  | x :: s =>
    if x == c then [] :: splitOn c s
    else match splitOn c s with
      | [] => [[x]]
      | p :: ps => (x :: p) :: ps

/-- Without white space (ASCII) in front. -/
def trimStart (s : Bytes) : Bytes := s.dropWhile Ascii.isSpace

/-- `n` copies of a byte. -/
def replicate (n : Nat) (c : UInt8) : Bytes := List.replicate n c

/-- Padded with a byte on the left up to the given length. -/
def padStart (width : Nat) (c : UInt8) (s : Bytes) : Bytes := replicate (width - s.length) c ++ s

/-- The digits of a number in a base up to sixteen, without leading zeros. -/
def ofNatBase (base n : Nat) : Bytes := (Nat.toDigits base n).map fun c => c.val.toUInt8

/-- Decimal digits. -/
def ofNat (n : Nat) : Bytes := ofNatBase 10 n

/-- Decimal digits, with a minus sign for negative numbers. -/
def ofInt : Int → Bytes
  | .ofNat n => ofNat n
  | .negSucc n => Ascii.minus :: ofNat (n + 1)

/-- Decimal digits with leading zeros up to the given width. -/
def ofNatPadded (width n : Nat) : Bytes := (ofNat n).padStart width 48

/-- The line with a newline at its end. -/
def line (s : Bytes) : Bytes := s ++ [Ascii.newline]

end Bytes

end ConsoleShell
