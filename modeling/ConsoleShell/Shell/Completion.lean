/-
Completion of the word that is being typed.

The first word completes as a command, the word after `var` as a variable, and an argument
that is declared as a path as a file.  A candidate that finishes the word ends in a space,
a directory in a slash.
-/
import ConsoleShell.Shell.Machine

namespace ConsoleShell

/-- The word at the end of a text and the words that could replace it. -/
structure Completion where
  word : Bytes := []
  candidates : List Bytes := []
  deriving DecidableEq, Repr

namespace Completion

variable {σ : Type}

/-- The names that begin with a word, each finished by a space. -/
def finished (word : Bytes) (names : List Bytes) : List Bytes :=
  (names.filter fun n => n.startsWith word).map fun n => n ++ [Ascii.space]

/-- The files and directories that a word may continue to. -/
def paths [FileBase σ] (m : Machine σ) (word : Bytes) : List Bytes × Machine σ :=
  let (dir, base) := Path.split word
  let path := m.resolve dir
  match m.request (.open path) with
  | (.error _, m) => ([], m)
  | (.ok _, m) =>
    let (entries, m) := m.listDirectory path
    let found := entries.filter fun e => e.1.startsWith base
    (Bytes.sort (found.map fun e =>
      dir ++ e.1 ++ [if e.2.isDirectory then Ascii.slash else Ascii.space]), m)

/-- The words of the line so far; none for a line that cannot be split. -/
def words? (text : Bytes) : Option (List Bytes) :=
  match Line.split text with
  | .ok line => some line.words
  | .error .empty => some []
  | .error _ => none

/-- Completes the last word of a text. -/
def complete [FileBase σ] (m : Machine σ) (text : Bytes) : Completion × Machine σ :=
  match words? text with
  | none => ({}, m)
  | some words =>
    let typing := (text.getLast?.map fun c => !Line.isSeparator c).getD false && !words.isEmpty
    let word := if typing then words.getLast?.getD [] else []
    let index := if typing then words.length - 1 else words.length
    if index = 0 then
      (⟨word, finished word (m.host.table.commands.map fun c => c.signature.name)⟩, m)
    else match (words.head?.bind fun name => m.host.table.findCommand? name) with
      | none => (⟨word, []⟩, m)
      | some c =>
        if c.signature.name == Table.varSignature.name && index == 1 then
          (⟨word, finished word (m.host.table.vars.map Variable.name)⟩, m)
        else if (c.signature.parameters[index - 1]?.map Parameter.kind) == some .path then
          let (candidates, m) := paths m word
          (⟨word, candidates⟩, m)
        else (⟨word, []⟩, m)

/-- The continuations of the last word of a line. -/
def continuations (c : Completion) : List Bytes := c.candidates.map fun x => x.dropStart c.word

/-- Completes a line that is typed on a terminal. -/
def typed [FileBase σ] (line : List Char) (m : Machine σ) : List (List Char) × Machine σ :=
  let (c, m) := complete m (Utf8.encode line)
  (c.continuations.map Utf8.chars, m)

end Completion

end ConsoleShell
