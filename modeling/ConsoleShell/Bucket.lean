/-
Ordered maps with a counter.

A bucket has a value under each of its keys.  Keys are byte strings, and a bucket can be walked
in their order, forwards and backwards.  It has a counter beside its items, which goes on
counting whatever is deleted.
-/
import ConsoleShell.Text.Bytes

namespace ConsoleShell

/-- Values under keys that are ordered byte by byte, and a counter. -/
structure Bucket where
  /-- The keys with their values, by increasing key. -/
  items : List (Bytes × Bytes) := []
  /-- The last number that the counter gave out. -/
  sequence : UInt64 := 0
  deriving DecidableEq, Repr

namespace Bucket

/-- The value under a key. -/
def get? (b : Bucket) (key : Bytes) : Option Bytes := (b.items.find? (·.1 == key)).map (·.2)

/-- Puts a value under a key at its place among items. -/
def insert (key value : Bytes) : List (Bytes × Bytes) → List (Bytes × Bytes)
  | [] => [(key, value)]
  | x :: xs =>
    if key.lt x.1 then (key, value) :: x :: xs
    else if key == x.1 then (key, value) :: xs
    else x :: insert key value xs

/-- Puts a value under a key, in place of an earlier one. -/
def put (b : Bucket) (key value : Bytes) : Bucket := { b with items := insert key value b.items }

/-- Without the value under a key. -/
def delete (b : Bucket) (key : Bytes) : Bucket :=
  { b with items := b.items.filter (·.1 != key) }

/-- Counts up; the number that is given out. -/
def count (b : Bucket) : UInt64 × Bucket := (b.sequence + 1, { b with sequence := b.sequence + 1 })

/-- The keys in order. -/
def keys (b : Bucket) : List Bytes := b.items.map (·.1)

/-- The items from the last one back to the first. -/
def backwards (b : Bucket) : List (Bytes × Bytes) := b.items.reverse

end Bucket

end ConsoleShell
