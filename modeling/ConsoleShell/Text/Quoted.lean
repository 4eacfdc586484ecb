/-
Quoted text in diagnostics.

A byte string is shown between double quotes.  A double quote and a backslash are
escaped by a backslash, the usual control characters have their letters, other ASCII
control characters and stray bytes are written `\xHH`, and characters that are not
printable are written `\uHHHH` or `\UHHHHHHHH`.
-/
import ConsoleShell.Text.Utf8
import ConsoleShell.Text.Unicode

namespace ConsoleShell

namespace Quoted

/-- `n` in hexadecimal with at least `width` digits. -/
def hex (width n : Nat) : Bytes := (Bytes.ofNatBase 16 n).padStart width 48

/-- The letter after the backslash of a control character that has one. -/
def controlLetter? (c : Char) : Option UInt8 :=
  match c.toNat with
  | 7 => some 97
  | 8 => some 98
  | 9 => some 116
  | 10 => some 110
  | 11 => some 118
  | 12 => some 102
  | 13 => some 114
  | _ => none

/-- How one element of the text stands between the quotes. -/
def piece : Utf8.Piece → Bytes
  | .stray b => Ascii.backslash :: 120 :: hex 2 b.toNat
  | .char c =>
    if c == '"' || c == '\\' then Ascii.backslash :: Utf8.encodeChar c
    else if Unicode.isPrintable c then Utf8.encodeChar c
    else match controlLetter? c with
      | some l => [Ascii.backslash, l]
      | none =>
        if c.toNat < 0x20 || c.toNat == 0x7F then Ascii.backslash :: 120 :: hex 2 c.toNat
        else if c.toNat < 0x10000 then Ascii.backslash :: 117 :: hex 4 c.toNat
        else Ascii.backslash :: 85 :: hex 8 c.toNat

end Quoted

/-- Each byte as two hexadecimal digits. -/
def Bytes.hexadecimal (s : Bytes) : Bytes := s.flatMap fun b => Quoted.hex 2 b.toNat

/-- The bytes that pairs of hexadecimal digits stand for. -/
def Bytes.ofHexadecimal : Bytes → Bytes
  | a :: b :: s =>
    (((Ascii.digitValue? a).getD 0 * 16 + (Ascii.digitValue? b).getD 0).toUInt8) :: ofHexadecimal s
  | _ => []

/-- The text between double quotes, with escapes. -/
def Bytes.quoted (s : Bytes) : Bytes :=
  Ascii.doubleQuote :: (Utf8.decode s).flatMap Quoted.piece ++ [Ascii.doubleQuote]

end ConsoleShell
