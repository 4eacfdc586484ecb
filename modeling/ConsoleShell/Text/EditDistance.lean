/-
The edit distance of two texts: how many bytes have to be inserted, removed or replaced to
turn one into the other.
-/
import ConsoleShell.Text.Bytes

namespace ConsoleShell

namespace EditDistance

/-- The rest of a row of distances, given the distance to the left and the row above from
one place before. -/
def rowRest (c : UInt8) : Nat → List Nat → Bytes → List Nat
  | left, corner :: above :: row, d :: t =>
    let n := min (min (above + 1) (left + 1)) (corner + if c = d then 0 else 1)
    n :: rowRest c n (above :: row) t
  | _, _, _ => []

/-- The distances of a text with one more byte at its end to the beginnings of `t`, given
those of the text without it. -/
def nextRow (t : Bytes) (row : List Nat) (c : UInt8) : List Nat :=
  let first := row.headD 0 + 1
  first :: rowRest c first row t

end EditDistance

/-- The edit distance of two texts. -/
def Bytes.editDistance (s t : Bytes) : Nat :=
  (s.foldl (EditDistance.nextRow t) (List.range (t.length + 1))).getLastD 0

end ConsoleShell
