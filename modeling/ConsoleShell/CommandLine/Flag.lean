/-
Flags on the command line of the program.

A flag is given by its name after two dashes or by its letter after one.  A switch may be
given alone; any other flag takes its value from after an equals sign, from the rest of
its word, or from the next word.  Flags and other words may be mixed, and after `--` there
are no flags.
-/
import ConsoleShell.Time.Duration

namespace ConsoleShell

namespace CommandLine

/-- What the value of a flag is. -/
inductive FlagKind where
  | switch
  | text
  | duration
  deriving DecidableEq, Repr

/-- A flag of the program. -/
structure Flag where
  name : Bytes
  letter : Option UInt8 := none
  kind : FlagKind := .text
  deriving DecidableEq, Repr

namespace Flag

/-- Why a word cannot be taken as a flag. -/
inductive Fault where
  | malformed (word : Bytes)
  | unknown (name : Bytes)
  | unknownLetter (letter : UInt8) (letters : Bytes)
  /-- There is no value. -/
  | noValue (word : Bytes)
  | noLetterValue (letter : UInt8) (letters : Bytes)
  | badValue (flag : Flag) (value reason : Bytes)
  deriving DecidableEq, Repr

/-- The dashes before the name of a flag. -/
def dashes : Bytes := [Ascii.minus, Ascii.minus]

/-- The flag as diagnostics call it. -/
def label (f : Flag) : Bytes :=
  match f.letter with
  | some c => [Ascii.minus, c] ++ (", " : Bytes) ++ dashes ++ f.name
  | none => dashes ++ f.name

/-- A letter in quotes. -/
def quotedLetter (c : UInt8) : Bytes :=
  let body := if c = Ascii.singleQuote then [Ascii.backslash, c]
    else if c = Ascii.doubleQuote then [c]
    else Quoted.piece (.char (Char.ofNat c.toNat))
  [Ascii.singleQuote] ++ body ++ [Ascii.singleQuote]

/-- The fault in words. -/
def Fault.message : Fault → Bytes
  | .malformed w => ("bad flag syntax: " : Bytes) ++ w
  | .unknown n => ("unknown flag: --" : Bytes) ++ n
  | .unknownLetter c cs =>
    ("unknown shorthand flag: " : Bytes) ++ quotedLetter c ++ " in -" ++ cs
  | .noValue w => ("flag needs an argument: " : Bytes) ++ w
  | .noLetterValue c cs => ("flag needs an argument: " : Bytes) ++ quotedLetter c ++ " in -" ++ cs
  | .badValue f v reason =>
    ("invalid argument " : Bytes) ++ v.quoted ++ " for " ++ f.label.quoted ++ " flag: " ++ reason

/-- The truth value that a text denotes. -/
def truth? (s : Bytes) : Option Bool :=
  if (["1", "t", "T", "true", "TRUE", "True"] : List Bytes).contains s then some true
  else if (["0", "f", "F", "false", "FALSE", "False"] : List Bytes).contains s then some false
  else none

/-- Why a text is no value of a flag, if it is none. -/
def fault? (f : Flag) (value : Bytes) : Option Fault :=
  match f.kind with
  | .text => none
  | .switch =>
    if (truth? value).isSome then none
    else some (.badValue f value
      (("strconv.ParseBool: parsing " : Bytes) ++ value.quoted ++ ": invalid syntax"))
  | .duration =>
    match Duration.parse value with
    | .ok _ => none
    | .error d => some (.badValue f value d.message)

/-- The flag with a name. -/
def ofName? (flags : List Flag) (name : Bytes) : Option Flag := flags.find? fun f => f.name == name

/-- The flag with a letter. -/
def ofLetter? (flags : List Flag) (c : UInt8) : Option Flag :=
  flags.find? fun f => f.letter == some c

/-- The value of a flag that is given alone. -/
def implied? (f : Flag) : Option Bytes := if f.kind = .switch then some "true" else none

end Flag

/-- The value that was given for a flag. -/
structure Setting where
  name : Bytes
  value : Bytes
  deriving DecidableEq, Repr

/-- The words of a command line taken apart. -/
structure Words where
  /-- The values of flags, in the order in which they were given. -/
  settings : List Setting := []
  /-- The words that are neither flags nor their values. -/
  arguments : List Bytes := []
  deriving DecidableEq, Repr

namespace Words

/-- The value of a flag: the last one that was given. -/
def value? (w : Words) (name : Bytes) : Option Bytes :=
  (w.settings.filter fun s => s.name == name).getLast?.map Setting.value

/-- A switch is on. -/
def isOn (w : Words) (name : Bytes) : Bool := (w.value? name).bind Flag.truth? == some true

/-- Gives a flag a value. -/
def put (f : Flag) (value : Bytes) : Except Flag.Fault Setting :=
  match f.fault? value with
  | none => .ok ⟨f.name, value⟩
  | some fault => .error fault

/-- Takes a word that gives a flag by its name, and the words after the flag. -/
def takeNamed (flags : List Flag) (word : Bytes) (rest : List Bytes) :
    Except Flag.Fault (Setting × List Bytes) :=
  let text := word.drop 2
  if text.isEmpty || text.head? == some Ascii.minus || text.head? == some Ascii.equals then
    .error (.malformed word)
  else
    let parts := Bytes.splitAt? Ascii.equals text
    let name := (parts.map (·.1)).getD text
    match Flag.ofName? flags name with
    | none => .error (.unknown name)
    | some f =>
      match (parts.map (·.2)).or f.implied?, rest with
      | some v, rest => (put f v).map fun s => (s, rest)
      | none, v :: rest => (put f v).map fun s => (s, rest)
      | none, [] => .error (.noValue word)

/-- The value after an equals sign, unless it is empty. -/
def attached? : Bytes → Option Bytes
  | c :: d :: ds => if c = Ascii.equals then some (d :: ds) else none
  | _ => none

/-- Takes the letters after a single dash, and the words after the flags. -/
def takeLetters (flags : List Flag) : Bytes → List Bytes →
    Except Flag.Fault (List Setting × List Bytes)
  | [], rest => .ok ([], rest)
  | c :: cs, rest =>
    match Flag.ofLetter? flags c with
    | none => .error (.unknownLetter c (c :: cs))
    | some f =>
      match attached? cs, f.implied? with
      | some v, _ => (put f v).map fun s => ([s], rest)
      | none, some v => do
        let s ← put f v
        let (more, rest) ← takeLetters flags cs rest
        return (s :: more, rest)
      | none, none =>
        match cs, rest with
        | [], [] => .error (.noLetterValue c [c])
        | [], v :: rest => (put f v).map fun s => ([s], rest)
        | cs, rest => (put f cs).map fun s => ([s], rest)

/-- A word that gives a flag by its name. -/
def isNamed (w : Bytes) : Bool := w.startsWith Flag.dashes

/-- A word that is a flag, or ends the flags. -/
def isFlag (w : Bytes) : Bool := w.head? == some Ascii.minus && 1 < w.length

/-- Takes words apart; each step of `fuel` takes a word. -/
def take (flags : List Flag) : Nat → List Bytes → Except Flag.Fault Words
  | 0, ws => .ok { arguments := ws }
  | _, [] => .ok {}
  | fuel + 1, w :: ws => do
    if !isFlag w then
      let r ← take flags fuel ws
      return { r with arguments := w :: r.arguments }
    if w == Flag.dashes then return { arguments := ws }
    let (settings, rest) ←
      if isNamed w then (takeNamed flags w ws).map fun (s, rest) => ([s], rest)
      else takeLetters flags (w.drop 1) ws
    let r ← take flags fuel rest
    return { r with settings := settings ++ r.settings }

/-- Takes the words of a command line apart. -/
def parse (flags : List Flag) (ws : List Bytes) : Except Flag.Fault Words :=
  take flags ws.length ws

end Words

end CommandLine

end ConsoleShell
