/-
Slash-separated paths.

A path is cleaned by dropping empty and `.` elements and resolving `..` against the
element before it, without looking at any file.
-/
import ConsoleShell.Text.Bytes

namespace ConsoleShell

namespace Path

/-- The path begins at the root. -/
def isAbsolute (p : Bytes) : Bool := p.head? == some Ascii.slash

/-- Adds one element to the cleaned elements before it, which are in reverse order. -/
def push (rooted : Bool) (stack : List Bytes) (element : Bytes) : List Bytes :=
  if element == [] || element == [Ascii.dot] then stack
  else if element == [Ascii.dot, Ascii.dot] then
    match stack with
    | [] => if rooted then [] else [element]
    | top :: rest => if top == [Ascii.dot, Ascii.dot] then element :: stack else rest
  else element :: stack

/-- The shortest path that means the same. -/
def clean (p : Bytes) : Bytes :=
  let rooted := isAbsolute p
  let elements := ((p.splitOn Ascii.slash).foldl (push rooted) []).reverse
  let body := Bytes.join [Ascii.slash] elements
  if rooted then Ascii.slash :: body
  else if body.isEmpty then [Ascii.dot] else body

/-- The elements that are not empty, joined by slashes and cleaned; empty if there are none. -/
def join (elements : List Bytes) : Bytes :=
  match elements.filter (fun e => e != []) with
  | [] => []
  | es => clean (Bytes.join [Ascii.slash] es)

/-- The path up to and with its last slash, and what follows it. -/
def split (p : Bytes) : Bytes × Bytes :=
  let base := (p.reverse.takeWhile (fun c => c != Ascii.slash)).reverse
  (p.take (p.length - base.length), base)

/-- The last element of the path. -/
def base (p : Bytes) : Bytes :=
  if p.isEmpty then [Ascii.dot]
  else
    let p := (p.reverse.dropWhile (fun c => c == Ascii.slash)).reverse
    if p.isEmpty then [Ascii.slash] else (split p).2

/-- All but the last element of the path, cleaned. -/
def directory (p : Bytes) : Bytes := clean (split p).1

/-- A name relative to a directory, or the name itself if it is absolute. -/
def resolve (dir name : Bytes) : Bytes :=
  if isAbsolute name then clean name else join [dir, name]

end Path

end ConsoleShell
