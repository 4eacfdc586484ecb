/-
Flags of commands.

A flag is switched on by its letter after a dash or by its long name after two dashes;
letters may be grouped, and a long name may be followed by `=` and a truth value.  Flags
end at the first word that is none, after `--`, and before a lone dash.
-/
import ConsoleShell.Text.Quoted

namespace ConsoleShell

/-- A flag that is on or off. -/
structure Flag where
  letter : Char
  /-- Empty if the flag has only a letter. -/
  long : Bytes := []
  help : Bytes
  deriving DecidableEq, Repr

namespace Flag

/-- Why words are not flags. -/
inductive Fault where
  | unknown (name : Bytes)
  /-- A value that is no truth value, for a flag given by its long name. -/
  | badValue (name value : Bytes)
  deriving DecidableEq, Repr

/-- The diagnostic for words that are not flags. -/
def Fault.message : Fault → Bytes
  | .unknown name => ("unknown option: " : Bytes) ++ name
  | .badValue name value =>
    ("invalid value for bool " : Bytes) ++ name ++ ": " ++ value.quoted

/-- The letters of flags with their latest values first, and the words after the flags. -/
structure Setting where
  values : List (Char × Bool) := []
  rest : List Bytes := []
  deriving DecidableEq, Repr

/-- A flag is on. -/
def Setting.isOn (s : Setting) (letter : Char) : Bool :=
  ((s.values.find? fun v => v.1 == letter).map (·.2)).getD false

/-- The truth value that a text denotes. -/
def truth? (text : Bytes) : Option Bool :=
  let t := text.map Ascii.toLower
  if (["", "1", "true", "on", "t"] : List Bytes).contains t then some true
  else if (["0", "false", "off", "f"] : List Bytes).contains t then some false
  else none

/-- The flag with a letter. -/
def ofLetter? (flags : List Flag) (c : Char) : Option Flag := flags.find? fun f => f.letter == c

/-- The flag with a long name; a single letter stands for itself. -/
def ofName? (flags : List Flag) (name : Bytes) : Option Flag :=
  (flags.find? fun f => f.long == name && !name.isEmpty).or
    (match name with
      | [c] => ofLetter? flags (Char.ofNat c.toNat)
      | _ => none)

/-- Takes a word that begins with two dashes. -/
def takeLong (flags : List Flag) (word : Bytes) (values : List (Char × Bool)) :
    Except Fault (List (Char × Bool)) :=
  let (name, value) := (Bytes.splitAt? Ascii.equals word).getD (word, [])
  match ofName? flags (name.drop 2) with
  | none => .error (.unknown name)
  | some f =>
    match truth? value with
    | some b => .ok ((f.letter, b) :: values)
    | none => .error (.badValue ([Ascii.minus, Ascii.minus] ++ f.long) value)

/-- Takes the letters after a single dash. -/
def takeLetters (flags : List Flag) : List Char → List (Char × Bool) →
    Except Fault (List (Char × Bool))
  | [], values => .ok values
  | c :: cs, values =>
    match ofLetter? flags c with
    | some f => takeLetters flags cs ((f.letter, true) :: values)
    | none =>
      .error (.unknown (if c == '-' then "-" else [Ascii.minus] ++ Utf8.encodeChar c))

/-- Takes flags from the front of a list of words. -/
def parse (flags : List Flag) (values : List (Char × Bool)) : List Bytes → Except Fault Setting
  | [] => .ok ⟨values, []⟩
  | word :: words =>
    match word with
    | [45] => .ok ⟨values, word :: words⟩
    | [45, 45] => .ok ⟨values, words⟩
    | 45 :: 45 :: _ =>
      match takeLong flags word values with
      | .error f => .error f
      | .ok values => parse flags values words
    | 45 :: letters =>
      match takeLetters flags (Utf8.chars letters) values with
      | .error f => .error f
      | .ok values => parse flags values words
    | _ => .ok ⟨values, word :: words⟩

/-- The flag as a description shows it. -/
def usage (f : Flag) : Bytes :=
  [Ascii.minus] ++ Utf8.encodeChar f.letter ++
    (if f.long.isEmpty then [] else (", --" : Bytes) ++ f.long)

/-- The lines that describe flags, with their descriptions in one column. -/
def describe (flags : List Flag) : List Bytes :=
  let width := (flags.map fun f => f.usage.length).foldl max 0
  flags.map fun f =>
    [Ascii.space] ++ f.usage ++ Bytes.replicate (width - f.usage.length + 2) Ascii.space ++ f.help

end Flag

end ConsoleShell
