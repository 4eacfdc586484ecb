/-
Recalling earlier lines.

The lines of a console are kept in a list with a cursor.  The last item stands for the
line that is being typed.  An item that is changed while the cursor is on it keeps its
stored line and remembers the changed one for as long as the same line is being edited.
-/
import ConsoleShell.Text.Bytes

namespace ConsoleShell

/-- An item of the list. -/
structure RecallItem where
  stored : List Char
  /-- The line as changed during the edit with the number `edit`. -/
  changed : List Char := []
  edit : Nat := 0
  deriving DecidableEq, Repr

/-- The lines that can be recalled. -/
structure Recall where
  items : List RecallItem := []
  /-- The position of the cursor; none while the list is empty. -/
  cursor : Option Nat := none
  /-- The number of the current edit. -/
  edit : Nat := 0
  deriving DecidableEq, Repr

namespace Recall

/-- The position of the last item. -/
def back (r : Recall) : Option Nat := if r.items.isEmpty then none else some (r.items.length - 1)

/-- Adds an item at the end and moves the cursor there. -/
def push (r : Recall) (line : List Char) : Recall :=
  { r with items := r.items ++ [{ stored := line }], cursor := some r.items.length }

/-- Changes the item at a position. -/
def modify (r : Recall) (i : Nat) (f : RecallItem → RecallItem) : Recall :=
  { r with items := r.items.modify i f }

/-- Remembers the line at the cursor, as the stored one if it is committed. -/
def update (r : Recall) (line : List Char) (commit : Bool) : Recall :=
  match r.cursor with
  | none => r.push line
  | some i =>
    r.modify i fun x =>
      if commit then { x with stored := line, edit := r.edit }
      else { x with changed := line, edit := r.edit }

/-- Ends the edit of a line that is not kept. -/
def revert (r : Recall) : Recall := { r with edit := r.edit + 1, cursor := r.back }

/-- The earlier line, with the cursor on it; none at the earliest. -/
def previous? (r : Recall) : Option (List Char × Recall) :=
  match r.cursor with
  | some (i + 1) =>
    match r.items[i]? with
    | some x => some (if x.edit = r.edit then x.changed else x.stored, { r with cursor := some i })
    | none => none
  | _ => none

/-- Keeps a line.  A line equal to the one kept last is not kept again, and a line that was
recalled from further back is kept as it was changed. -/
def keep (r : Recall) (line : List Char) : Recall :=
  let settle (i : Nat) : Recall :=
    { r.modify i (fun x => { x with changed := [] }) with cursor := some i, edit := r.edit + 1 }
  match r.back with
  | some (i + 1) =>
    if (r.items[i]?.map RecallItem.stored) == some line then settle (i + 1)
    else if line.isEmpty then settle (i + 1)
    else commit
  | some 0 => if line.isEmpty then settle 0 else commit
  | none => commit
where
  /-- Commits the line that is being edited and begins a new item. -/
  commit : Recall :=
    let (line, r) :=
      if r.cursor = r.back then (line, r)
      else
        let changed := (r.cursor.bind fun i => r.items[i]?).map RecallItem.changed
        (changed.getD [], { r with cursor := r.back })
    let r := r.update line true
    { r with edit := r.edit + 1 }.push []

end Recall

end ConsoleShell
