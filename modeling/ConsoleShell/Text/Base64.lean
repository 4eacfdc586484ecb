/-
Bytes in base 64: four characters for three bytes, with equals signs for what is missing
at the end.
-/
import ConsoleShell.Text.Bytes

namespace ConsoleShell

namespace Base64

/-- The character for six bits. -/
def symbol (n : Nat) : UInt8 :=
  if n < 26 then (65 + n).toUInt8
  else if n < 52 then (71 + n).toUInt8
  else if n < 62 then (n - 4).toUInt8
  else if n = 62 then Ascii.plus
  else Ascii.slash

/-- The six bits that a character stands for. -/
def value? (c : UInt8) : Option Nat := (List.range 64).find? fun n => symbol n == c

/-- The characters for bytes. -/
def encode : Bytes → Bytes
  | a :: b :: c :: s =>
    let n := a.toNat * 65536 + b.toNat * 256 + c.toNat
    symbol (n / 262144) :: symbol (n / 4096 % 64) :: symbol (n / 64 % 64) :: symbol (n % 64) ::
      encode s
  | [a, b] =>
    let n := a.toNat * 1024 + b.toNat * 4
    [symbol (n / 4096), symbol (n / 64 % 64), symbol (n % 64), Ascii.equals]
  | [a] => [symbol (a.toNat / 4), symbol (a.toNat % 4 * 16), Ascii.equals, Ascii.equals]
  | [] => []

/-- The bytes that groups of four characters stand for. -/
def groups? : Bytes → Option Bytes
  | [] => some []
  | [a, b, c, d] => do
    let a ← value? a
    let b ← value? b
    let first := (a * 4 + b / 16).toUInt8
    if c = Ascii.equals && d = Ascii.equals then return [first]
    let c ← value? c
    let second := (b % 16 * 16 + c / 4).toUInt8
    if d = Ascii.equals then return [first, second]
    let d ← value? d
    return [first, second, (c % 4 * 64 + d).toUInt8]
  | a :: b :: c :: d :: s => do
    let n := (← value? a) * 262144 + (← value? b) * 4096 + (← value? c) * 64 + (← value? d)
    return (n / 65536).toUInt8 :: (n / 256 % 256).toUInt8 :: (n % 256).toUInt8 :: (← groups? s)
  | _ => none

/-- The bytes that characters stand for, line breaks apart. -/
def decode? (s : Bytes) : Option Bytes :=
  groups? (s.filter fun c => c != Ascii.newline && c != Ascii.carriageReturn)

end Base64

end ConsoleShell
