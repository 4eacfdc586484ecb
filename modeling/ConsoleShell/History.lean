/-
Command history.

Lines are numbered in the order in which they are added, and a number is never used again, not
even after the history has been cleared.  They are kept in a bucket: the counter of the bucket
gives the numbers, and the key of a line is its number written with eight bytes, so that the
order of keys is the order of numbers.  The bucket stays in a file while no history is open.
-/
import ConsoleShell.Bucket
import ConsoleShell.Number.Numeral

namespace ConsoleShell

/-- A line of the history with its number. -/
structure HistoryEntry where
  number : Int
  text : Bytes
  deriving DecidableEq, Repr

/-- A history that is open, with its bucket. -/
structure History where
  bucket : Bucket := {}
  deriving DecidableEq, Repr

namespace History

/-! ### Numbers and keys -/

/-- The lowest bytes of a number, the highest of them first. -/
def bigEndian : Nat → Nat → Bytes
  | 0, _ => []
  | width + 1, n => (n / 256 ^ width).toUInt8 :: bigEndian width n

/-- The number that bytes stand for, the highest first. -/
def ofBigEndian (s : Bytes) : Nat := s.foldl (fun n c => n * 256 + c.toNat) 0

/-- The number of bytes of a key. -/
abbrev keyLength : Nat := 8

/-- The key of the line with a number. -/
def key (n : UInt64) : Bytes := bigEndian keyLength n.toNat

/-- The number in a key. -/
def ofKey (k : Bytes) : UInt64 := (ofBigEndian (k.take keyLength)).toUInt64

/-- A number of the counter as a signed number, as callers see it. -/
def signed (n : UInt64) : Int := Numeral.wrap n.toNat

/-- A signed number as one of the counter. -/
def unsigned (n : Int) : UInt64 := UInt64.ofInt n

/-! ### Lines -/

/-- The number of the next line. -/
def next (h : History) : Int := signed (h.bucket.sequence + 1)

/-- Adds a line; the number that it is given. -/
def append (h : History) (text : Bytes) : Int × History :=
  let (n, b) := h.bucket.count
  (signed n, ⟨b.put (key n) text⟩)

/-- Adds a line. -/
def add (h : History) (text : Bytes) : History := (h.append text).2

/-- Removes every line; numbers keep increasing. -/
def clear (h : History) : History := ⟨h.bucket.keys.foldl Bucket.delete h.bucket⟩

/-- The line with a number. -/
def find? (h : History) (number : Int) : Option Bytes := h.bucket.get? (key (unsigned number))

/-- The entry that is kept as an item. -/
def entry (item : Bytes × Bytes) : HistoryEntry := ⟨signed (ofKey item.1), item.2⟩

/-- Adds the entries of items to those that have been collected, until there are as many as a
limit says if it is positive. -/
def collect (limit : Int) (found : List HistoryEntry) :
    List (Bytes × Bytes) → List HistoryEntry
  | [] => found
  | item :: items =>
    if 0 < limit && limit ≤ found.length then found
    else collect limit (found ++ [entry item]) items

/-- The last lines in order, all of them unless the limit is positive. -/
def recent (h : History) (limit : Int) : List HistoryEntry :=
  (collect limit [] h.bucket.backwards).reverse

/-- Every line in order. -/
def entries (h : History) : List HistoryEntry := h.recent 0

/-- A history that already has lines. -/
def ofLines (lines : List Bytes) : History := lines.foldl add {}

/-- The diagnostic for a number without a line. -/
def noMatch : Bytes := "no matching command line"

/-! ### The file of a history -/

/-- Opens the history in a file, whose bucket is made if it is not there. -/
def ofFile (file : Option Bucket) : History := ⟨file.getD {}⟩

/-- What the file has after the history is closed. -/
def close (h : History) : Option Bucket := some h.bucket

end History

end ConsoleShell
