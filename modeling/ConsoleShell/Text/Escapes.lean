/-
Escape sequences in printed text.

A backslash followed by up to three octal digits, by `x` and one or two hexadecimal
digits, or by a letter of the C language stands for one byte.  Before any other byte it
is dropped.  A backslash at the end, or before an `x` without digits, stays.
-/
import ConsoleShell.Text.Bytes

namespace ConsoleShell

namespace Escapes

/-- The byte is an octal digit. -/
def isOctal (c : UInt8) : Bool := 48 ≤ c && c ≤ 55

/-- The byte is a hexadecimal digit. -/
def isHex (c : UInt8) : Bool := (Ascii.digitValue? c).any fun d => d < 16

/-- The value of a run of digits, reduced to one byte. -/
def byteOf (base : Nat) (digits : Bytes) : UInt8 :=
  (digits.foldl (fun n c => n * base + (Ascii.digitValue? c).getD 0) 0).toUInt8

/-- The byte that a letter after a backslash stands for; other bytes stand for themselves. -/
def letter (c : UInt8) : UInt8 :=
  match c with
  | 97 => Ascii.bell
  | 98 => Ascii.backspace
  | 102 => Ascii.formFeed
  | 110 => Ascii.newline
  | 114 => Ascii.carriageReturn
  | 116 => Ascii.tab
  | 118 => Ascii.verticalTab
  | c => c

/-- The byte that the text after a backslash denotes, and how much of that text it takes. -/
def escape? : Bytes → Option (UInt8 × Nat)
  | [] => none
  | c :: s =>
    if c == 120 then
      let ds := (s.take 2).takeWhile isHex
      if ds.isEmpty then none else some (byteOf 16 ds, ds.length + 1)
    else if isOctal c then
      let ds := ((c :: s).take 3).takeWhile isOctal
      some (byteOf 8 ds, ds.length)
    else some (letter c, 1)

/-- The text with its escape sequences replaced. -/
def unescape : Bytes → Bytes
  | [] => []
  | c :: s =>
    if c == Ascii.backslash then
      match escape? s with
      | some (b, k) => b :: unescape (s.drop k)
      | none => c :: unescape s
    else c :: unescape s
termination_by s => s.length

end Escapes

end ConsoleShell
