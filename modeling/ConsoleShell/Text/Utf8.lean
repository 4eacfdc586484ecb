/-
UTF-8.

A byte string is read as a sequence of characters and stray bytes: bytes that do not
begin a well-formed encoding (over-long forms, surrogates and values above U+10FFFF are
not well-formed) stand alone, one by one.
-/
import ConsoleShell.Text.Bytes
namespace ConsoleShell

namespace Utf8

/-- One element of a byte string read as text. -/
inductive Piece where
  /-- A well-formed encoding of a character. -/
  | char (c : Char)
  /-- A byte that belongs to no well-formed encoding. -/
  | stray (b : UInt8)
  deriving DecidableEq, Repr

/-- The character that stands for a stray byte where only text is allowed. -/
abbrev replacement : Char := '\uFFFD'

/-- The character a piece is shown as. -/
def Piece.toChar : Piece → Char
  | .char c => c
  | .stray _ => replacement

/-- The byte continues a multi-byte encoding. -/
def isContinuation (b : UInt8) : Bool := 0x80 ≤ b && b ≤ 0xBF

/-- The six bits that a continuation byte carries. -/
def tail6 (b : UInt8) : Nat := b.toNat % 64

/-- The character encoded at the front of `a :: r`, with the number of bytes of `r` that its
encoding takes. -/
def scalar? (a : UInt8) (r : Bytes) : Option (Char × Nat) :=
  if a < 0x80 then some (Char.ofNat a.toNat, 0)
  else if 0xC2 ≤ a && a ≤ 0xDF then
    match r with
    | b :: _ =>
      if isContinuation b then some (Char.ofNat ((a.toNat - 0xC0) * 64 + tail6 b), 1) else none
    | _ => none
  else if 0xE0 ≤ a && a ≤ 0xEF then
    match r with
    | b :: c :: _ =>
      let lo : UInt8 := if a == 0xE0 then 0xA0 else 0x80
      let hi : UInt8 := if a == 0xED then 0x9F else 0xBF
      if lo ≤ b && b ≤ hi && isContinuation c then
        some (Char.ofNat ((a.toNat - 0xE0) * 4096 + tail6 b * 64 + tail6 c), 2)
      else none
    | _ => none
  else if 0xF0 ≤ a && a ≤ 0xF4 then
    match r with
    | b :: c :: d :: _ =>
      let lo : UInt8 := if a == 0xF0 then 0x90 else 0x80
      let hi : UInt8 := if a == 0xF4 then 0x8F else 0xBF
      if lo ≤ b && b ≤ hi && isContinuation c && isContinuation d then
        some (Char.ofNat ((a.toNat - 0xF0) * 262144 + tail6 b * 4096 + tail6 c * 64 + tail6 d), 3)
      else none
    | _ => none
  else none

/-- The byte string as a sequence of characters and stray bytes. -/
def decode : Bytes → List Piece
  | [] => []
  | a :: r =>
    match scalar? a r with
    | some (c, k) => .char c :: decode (r.drop k)
    | none => .stray a :: decode r
termination_by s => s.length

/-- The UTF-8 encoding of a character. -/
def encodeChar (c : Char) : Bytes := String.utf8EncodeChar c

/-- The UTF-8 encoding of a sequence of characters. -/
def encode (cs : List Char) : Bytes := cs.flatMap encodeChar

/-- The bytes of a piece. -/
def Piece.bytes : Piece → Bytes
  | .char c => encodeChar c
  | .stray b => [b]

/-- Every byte belongs to the encoding of some character. -/
def isValid (s : Bytes) : Bool :=
  (decode s).all fun
    | .char _ => true
    | .stray _ => false

/-- The characters of the text, `replacement` for each stray byte. -/
def chars (s : Bytes) : List Char := (decode s).map Piece.toChar

/-- The text with each stray byte replaced by the encoding of `replacement`. -/
def sanitize (s : Bytes) : Bytes := encode (chars s)

end Utf8

/-- The number of characters, a stray byte counting as one. -/
def Bytes.charCount (s : Bytes) : Nat := (Utf8.decode s).length

/-- The byte string as a `String`, stray bytes replaced. -/
def Bytes.toText (s : Bytes) : String := String.ofList (Utf8.chars s)

end ConsoleShell
