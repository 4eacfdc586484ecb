/-
Counting rows under their keys.

The counts are kept by text: the key of a row is the text of its values, and the values are read
back from it for the report.  The report visits the keys in any order and sorts its lines.
-/
import ConsoleShell.Json.Reader
import ConsoleShell.Log.Counter

namespace ConsoleShell

/-- Counts of rows that have a value in each of the same columns, by the keys of the rows. -/
structure KeyedCounter where
  columns : List Bytes
  keys : Counter Bytes := {}
  deriving DecidableEq, Repr

namespace KeyedCounter

/-- Counts a row; none if it has not one value for each column. -/
def add? (c : KeyedCounter) (row : List Bytes) : Option KeyedCounter :=
  if row.length = c.columns.length then
    some { c with keys := c.keys.add (RowCounter.key row) }
  else none

/-- Counts a row, unless it has not one value for each column. -/
def add (c : KeyedCounter) (row : List Bytes) : KeyedCounter := (c.add? row).getD c

/-- The values in a key.  What is not a string leaves its place empty. -/
def ofKey (key : Bytes) : List Bytes :=
  match Json.parse? key with
  | some (.array items) => items.map fun
    | .string value => value
    | _ => []
  | _ => []

/-- Puts a value under a name, in place of one that was there. -/
def put (fields : List (Bytes × Bytes)) (field : Bytes × Bytes) : List (Bytes × Bytes) :=
  fields.filter (fun f => f.1 != field.1) ++ [field]

/-- Values under the names of their columns, sorted by name; none if a value is missing. -/
def fields? (columns row : List Bytes) : Option (List (Bytes × Bytes)) :=
  if row.length < columns.length then none
  else some (((columns.zip row).foldl put []).mergeSort fun a b => a.1.le b.1)

/-- A line of a report. -/
structure Line where
  count : Nat
  event : List (Bytes × Bytes)
  key : Bytes
  deriving DecidableEq, Repr

/-- Lines with higher counts come first, those with equal counts in the order of their keys. -/
def Line.before (a b : Line) : Bool :=
  if a.count == b.count then a.key.le b.key else b.count < a.count

def Line.json (l : Line) : Json :=
  .object [("count", .ofNat l.count), ("event", .object (l.event.map fun (k, v) => (k, .string v)))]

/-- The line for a key with its count. -/
def line? (columns : List Bytes) (entry : Bytes × Nat) : Option Line :=
  (fields? columns (ofKey entry.1)).map fun event => { count := entry.2, event, key := entry.1 }

/-- The report on keys that are visited in some order with their counts. -/
def report? (columns : List Bytes) (visited : List (Bytes × Nat)) : Option Json :=
  (visited.mapM (line? columns)).map fun lines =>
    .array ((lines.mergeSort Line.before).map Line.json)

/-- The text of the report. -/
def text? (columns : List Bytes) (visited : List (Bytes × Nat)) : Option Bytes :=
  (report? columns visited).map (Json.render { markup := true })

end KeyedCounter

end ConsoleShell
