/-
Lines from a stream.

A reader without editing takes bytes from its stream in portions of up to 4096 and hands
out one line after another.  Bytes that it has taken and not handed out are lost when it
is given up.
-/
import ConsoleShell.File.Handle

namespace ConsoleShell

/-- Reads at most `count` bytes of a text that is all there is. -/
def Bytes.readPortion (count : Nat) (s : Bytes) : Except StreamFault Bytes × Bytes :=
  if s.isEmpty then (.error .endOfInput, s) else (.ok (s.take count), s.drop count)

/-- What a reader has taken from its stream. -/
structure LineBuffer where
  pending : Bytes := []
  /-- The stream failed or ended at the last attempt to read. -/
  fault : Option StreamFault := none
  deriving DecidableEq, Repr

namespace LineBuffer

/-- The size of the buffer. -/
abbrev capacity : Nat := 4096

variable {σ : Type}

/-- Takes the next line.  `read` takes at most the given number of bytes from the stream,
whose state is `s`; `line` is what has been taken of the line already.  At the end of the
stream a line without its newline counts, unless it is empty. -/
def next (read : Nat → σ → Except StreamFault Bytes × σ) :
    Nat → Bytes → LineBuffer → σ → Except StreamFault Bytes × LineBuffer × σ
  | 0, _, b, s => (.error .endOfInput, b, s)
  | fuel + 1, line, b, s =>
    match b.pending.splitAt? Ascii.newline with
    | some (head, rest) => (.ok (line ++ head), { b with pending := rest }, s)
    | none =>
      match b.fault with
      | some f =>
        let text := line ++ b.pending
        if f = .endOfInput && !text.isEmpty then (.ok text, {}, s) else (.error f, {}, s)
      | none =>
        if capacity ≤ b.pending.length then next read fuel (line ++ b.pending) {} s
        else match read (capacity - b.pending.length) s with
          | (.ok data, s) => next read fuel line { b with pending := b.pending ++ data } s
          | (.error f, s) => next read fuel line { b with fault := some f } s

/-- What a number of attempts to take a line from a text give; none after the last line. -/
def lines : Nat → LineBuffer → Bytes → List (Option Bytes)
  | 0, _, _ => []
  | n + 1, b, s =>
    let (line, b, s) := next Bytes.readPortion (s.length + 4) [] b s
    line.toOption :: lines n b s

end LineBuffer

end ConsoleShell
