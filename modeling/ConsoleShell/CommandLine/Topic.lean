/-
What the program can be asked to do.

The first words of a command line name a task, possibly within a group of tasks.  Flags
may stand before and between these words, so that the words are looked for without the
flags and their values.
-/
import ConsoleShell.CommandLine.Flag
import ConsoleShell.Text.EditDistance

namespace ConsoleShell

namespace CommandLine

/-- What the program does. -/
inductive Task where
  /-- Explains itself. -/
  | help
  /-- Runs a script, then the console. -/
  | run
  /-- Runs a single line. -/
  | exec
  /-- Makes a configuration. -/
  | setUp
  /-- Lists the commands of the shell. -/
  | commands
  /-- Sums up the event log. -/
  | report
  /-- Shows a recording with its pauses. -/
  | play
  /-- Shows a recording at once. -/
  | display
  /-- Turns a recording into lines of JSON. -/
  | convert
  deriving DecidableEq, Repr

/-- How many arguments a task takes. -/
inductive Arity where
  | any
  | exactly (n : Nat)
  | atLeast (n : Nat)
  | atMost (n : Nat)
  deriving DecidableEq, Repr

/-- What is wrong with a number of arguments, if anything. -/
def Arity.fault? (a : Arity) (n : Nat) : Option Bytes :=
  let received : Bytes := " arg(s), received "
  match a with
  | .any => none
  | .exactly k =>
    if n = k then none else some (("accepts " : Bytes) ++ Bytes.ofNat k ++ received ++ Bytes.ofNat n)
  | .atLeast k =>
    if k ≤ n then none
    else some (("requires at least " : Bytes) ++ Bytes.ofNat k ++ " arg(s), only received " ++
      Bytes.ofNat n)
  | .atMost k =>
    if n ≤ k then none
    else some (("accepts at most " : Bytes) ++ Bytes.ofNat k ++ received ++ Bytes.ofNat n)

/-- A task or a group of tasks. -/
structure Topic where
  /-- The words that lead to it. -/
  path : List Bytes
  /-- Other words in place of the last one. -/
  aliases : List Bytes := []
  task : Task := .help
  arity : Arity := .any
  /-- The flags of its own. -/
  flags : List Flag := []
  /-- It is suggested when its name is misspelt. -/
  isListed : Bool := true
  deriving DecidableEq, Repr

/-- The name of the program. -/
def programName : Bytes := "iocsh"

/-- The directory of the configuration. -/
def configFlag : Flag := { name := "config" }

/-- Warnings are shown. -/
def verboseFlag : Flag := { name := "verbose", letter := some 118, kind := .switch }

/-- The program explains a task instead of doing it. -/
def helpFlag : Flag := { name := "help", letter := some 104, kind := .switch }

/-- Definitions for the lines that are run. -/
def definitionsFlag : Flag := { name := "macros", letter := some 109 }

/-- The program ends after the script. -/
def noConsoleFlag : Flag := { name := "no-console", kind := .switch }

/-- The longest pause of a recording that is played. -/
def idleFlag : Flag := { name := "idle-time-limit", letter := some 105, kind := .duration }

namespace Topic

/-- The program as a whole. -/
def root : Topic := { path := [] }

/-- All topics apart from the program as a whole. -/
def all : List Topic :=
  [{ path := ["commands"], task := .commands, arity := .exactly 0 },
   { path := ["exec"], task := .exec, arity := .atLeast 1, flags := [definitionsFlag] },
   { path := ["init"], task := .setUp, arity := .exactly 0 },
   { path := ["logs"], aliases := ["log"] },
   { path := ["run"], task := .run, arity := .atMost 1, flags := [definitionsFlag, noConsoleFlag] },
   { path := ["help"], isListed := false },
   { path := ["logs", "report"], task := .report },
   { path := ["logs", "play"], task := .play, arity := .exactly 1, flags := [idleFlag] },
   { path := ["logs", "asciicast"], task := .convert, arity := .exactly 1 },
   { path := ["logs", "cat"], task := .display, arity := .exactly 1 }]

/-- The last word that leads to a topic. -/
def name (t : Topic) : Bytes := t.path.getLastD []

/-- The flags of a topic, and those that every topic has. -/
def allFlags (t : Topic) : List Flag := t.flags ++ [configFlag, verboseFlag]

/-- The topics of a group. -/
def children (t : Topic) : List Topic :=
  all.filter fun c => !c.path.isEmpty && c.path.dropLast == t.path

/-- The topic of a group with a name. -/
def child? (t : Topic) (word : Bytes) : Option Topic :=
  t.children.find? fun c => c.name == word || c.aliases.contains word

/-! ### Finding a topic -/

/-- A word that is a flag whose value is the next word.  A flag that is not known is taken
for one. -/
def takesNext (flags : List Flag) (w : Bytes) : Bool :=
  if w.contains Ascii.equals then false
  else if Words.isNamed w then ((Flag.ofName? flags (w.drop 2)).bind Flag.implied?).isNone
  else match w with
    | [c, d] => c == Ascii.minus && ((Flag.ofLetter? flags d).bind Flag.implied?).isNone
    | _ => false

/-- The words that are neither flags nor their values; each step of `fuel` takes a word. -/
def plainWords (flags : List Flag) : Nat → List Bytes → List Bytes
  | 0, _ => []
  | _, [] => []
  | fuel + 1, w :: ws =>
    if w == Flag.dashes then []
    else if takesNext flags w then if ws.length ≤ 1 then [] else plainWords flags fuel (ws.drop 1)
    else if w.isEmpty || w.head? == some Ascii.minus then plainWords flags fuel ws
    else w :: plainWords flags fuel ws

/-- The words of a command line, flags and their values apart. -/
def plain (t : Topic) (ws : List Bytes) : List Bytes := plainWords t.allFlags ws.length ws

/-- The topic that words lead to from a group, and the other words; each step of `fuel`
takes a word. -/
def locate : Nat → Topic → List Bytes → Topic × List Bytes
  | 0, t, ws => (t, ws)
  | fuel + 1, t, ws =>
    match (t.plain ws).head? with
    | none => (t, ws)
    | some w =>
      match t.child? w with
      | none => (t, ws)
      | some c => locate fuel c (ws.erase w)

/-! ### Words that lead nowhere -/

/-- A name is close to a word: nearly the same, or longer. -/
def isClose (word name : Bytes) : Bool :=
  let w : Bytes := word.map Ascii.toLower
  let n : Bytes := name.map Ascii.toLower
  w.editDistance n ≤ 2 || n.startsWith w

/-- The names that may have been meant by a word. -/
def suggestions (word : Bytes) : List Bytes :=
  ((root.children.filter isListed).map name).filter (isClose word)

/-- The diagnostic for a word that names no topic. -/
def unknown (word : Bytes) : Bytes :=
  let names := suggestions word
  let hint : Bytes := if names.isEmpty then []
    else ("\n\nDid you mean this?\n" : Bytes) ++ names.flatMap fun n => Bytes.line (Ascii.tab :: n)
  ("unknown command " : Bytes) ++ word.quoted ++ " for " ++ programName.quoted ++ hint

/-- The topic that the words of a command line lead to, and the other words; or the word
that leads nowhere. -/
def find (ws : List Bytes) : Except Bytes (Topic × List Bytes) :=
  let (t, rest) := locate ws.length root ws
  match t.path, t.plain rest with
  | [], w :: _ => .error w
  | _, _ => .ok (t, rest)

end Topic

end CommandLine

end ConsoleShell
