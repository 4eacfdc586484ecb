/-
Counting texts and rows of texts.
-/
import ConsoleShell.Json.Value

namespace ConsoleShell

/-- How often each key has been seen, in the order in which they were first seen. -/
structure Counter (α : Type) where
  counts : List (α × Nat) := []
  deriving DecidableEq, Repr

namespace Counter

variable {α : Type} [BEq α]

/-- Adds one to the count of a key. -/
def bump (k : α) : List (α × Nat) → List (α × Nat)
  | [] => [(k, 1)]
  | (x, n) :: rest => if x == k then (x, n + 1) :: rest else (x, n) :: bump k rest

/-- Counts a key. -/
def add (c : Counter α) (k : α) : Counter α := ⟨bump k c.counts⟩

/-- How often a key has been seen. -/
def count (c : Counter α) (k : α) : Nat := ((c.counts.find? fun e => e.1 == k).map (·.2)).getD 0

/-- The counts as an object with sorted keys, null if nothing has been seen. -/
def json (c : Counter Bytes) : Json :=
  if c.counts.isEmpty then .null
  else .object ((c.counts.mergeSort fun a b => a.1.le b.1).map fun (k, n) => (k, .ofNat n))

end Counter

/-- Counts of rows that have a value in each of the same columns. -/
structure RowCounter where
  columns : List Bytes
  rows : Counter (List Bytes) := {}
  deriving DecidableEq, Repr

namespace RowCounter

/-- The row has too few or too many values. -/
def wrongWidth : Bytes := "wrong number of columns to add"

/-- Counts a row; none if it has not one value for each column. -/
def add? (c : RowCounter) (row : List Bytes) : Option RowCounter :=
  if row.length = c.columns.length then
    some { c with rows := c.rows.add (row.map Utf8.sanitize) }
  else none

/-- Counts a row, unless it has not one value for each column. -/
def add (c : RowCounter) (row : List Bytes) : RowCounter := (c.add? row).getD c

/-- The text by which rows with equal counts are ordered. -/
def key (row : List Bytes) : Bytes := (Json.ofStrings row).render { markup := true }

/-- Rows with higher counts come first, those with equal counts in the order of their keys. -/
def before (a b : List Bytes × Nat) : Bool :=
  if a.2 == b.2 then (key a.1).le (key b.1) else b.2 < a.2

/-- The rows with their counts, ordered. -/
def sorted (c : RowCounter) : List (List Bytes × Nat) := c.rows.counts.mergeSort before

/-- The rows as a list of objects. -/
def json (c : RowCounter) : Json :=
  .array (c.sorted.map fun (row, n) => .object
    [("count", .ofNat n), ("event", .object ((c.columns.zip row).map fun (k, v) => (k, .string v)))])

end RowCounter

end ConsoleShell
