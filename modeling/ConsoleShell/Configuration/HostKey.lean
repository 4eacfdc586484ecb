/-
The key of the console host.

A key is kept as text: the bytes of the key in base 64, on lines of 64 characters between
a first and a last line that name the kind of key.
-/
import ConsoleShell.Text.Base64

namespace ConsoleShell

namespace HostKey

/-- The text cut into lines of 64 characters; each step of `fuel` takes one line. -/
def foldLines : Nat → Bytes → Bytes
  | 0, _ => []
  | fuel + 1, s => if s.isEmpty then [] else Bytes.line (s.take 64) ++ foldLines fuel (s.drop 64)

/-- The name of the kind of key. -/
def label : Bytes := "PRIVATE KEY"

/-- What precedes the 32 bytes of a signing key in its encoding. -/
def encodingHead : Bytes :=
  [0x30, 0x2e, 0x02, 0x01, 0x00, 0x30, 0x05, 0x06, 0x03, 0x2b, 0x65, 0x70, 0x04, 0x22, 0x04, 0x20]

/-- The first line of a key. -/
def opening : Bytes := ("-----BEGIN " : Bytes) ++ label ++ "-----"

/-- The last line of a key. -/
def closing : Bytes := ("-----END " : Bytes) ++ label ++ "-----"

/-- The text of the signing key with the given 32 random bytes. -/
def text (random : Bytes) : Bytes :=
  let body := Base64.encode (encodingHead ++ random)
  opening.line ++ foldLines body.length body ++ closing.line

/-- The text begins with the first line of a key. -/
def isKey (s : Bytes) : Bool := s.startsWith opening

/-- The text holds a key that the console can use. -/
def isUsable (s : Bytes) : Bool := Bytes.hasInfix opening s && Bytes.hasInfix closing s

end HostKey

end ConsoleShell
