/-
What plain text means in YAML.

Plain text may stand for a truth value, nothing, or a number; otherwise it is a string.
Integers may be octal, hexadecimal or binary and may hold underscores.
-/
import ConsoleShell.Number.DoubleReader
import ConsoleShell.Time.Timestamp

namespace ConsoleShell

namespace Yaml

/-- What a scalar stands for. -/
inductive Scalar where
  | null
  | bool (value : Bool)
  | int (value : Int)
  | float (value : Double)
  | string (text : Bytes)
  deriving DecidableEq, Repr

namespace Scalar

/-- The words with a meaning. -/
def words : List (List Bytes × Scalar) :=
  [(["y", "Y", "yes", "Yes", "YES", "true", "True", "TRUE", "on", "On", "ON"], .bool true),
   (["n", "N", "no", "No", "NO", "false", "False", "FALSE", "off", "Off", "OFF"], .bool false),
   (["", "~", "null", "Null", "NULL"], .null),
   ([".nan", ".NaN", ".NAN"], .float .nan),
   ([".inf", ".Inf", ".INF", "+.inf", "+.Inf", "+.INF"], .float (.infinity false)),
   (["-.inf", "-.Inf", "-.INF"], .float (.infinity true))]

/-- The meaning of a word. -/
def ofWord? (s : Bytes) : Option Scalar := (words.find? fun w => w.1.contains s).map (·.2)

/-- Text without a sign in front. -/
def unsigned (s : Bytes) : Bytes :=
  match s with
  | c :: r => if c == Ascii.plus || c == Ascii.minus then r else s
  | [] => []

/-- An exponent, or nothing at all. -/
def isExponent (s : Bytes) : Bool :=
  match s with
  | [] => true
  | c :: r =>
    (c == 101 || c == 69) && !(unsigned r).isEmpty && (unsigned r).all Ascii.isDigit

/-- The text has the form of a decimal number. -/
def isDecimal (s : Bytes) : Bool :=
  let s := unsigned s
  let whole := s.takeWhile Ascii.isDigit
  match s.dropWhile Ascii.isDigit with
  | 46 :: r =>
    let fraction := r.takeWhile Ascii.isDigit
    !(whole.isEmpty && fraction.isEmpty) && isExponent (r.dropWhile Ascii.isDigit)
  | r => !whole.isEmpty && isExponent r

/-- A double, unless it is out of range. -/
def double? (s : Bytes) : Option Scalar := (Double.parse s).toOption.map .float

/-- A number. -/
def number? (s : Bytes) : Option Scalar :=
  let digits := s.filter fun c => c != Ascii.underscore
  match Numeral.parseSigned digits with
  | .ok n => some (.int n)
  | .error _ =>
    match Numeral.parseUnsigned digits with
    | .ok n => some (.int n)
    | .error _ => if isDecimal digits then double? digits else none

/-- A date, alone or with the time of the day. -/
def isTimestamp (s : Bytes) : Bool :=
  let date := Timestamp.date? Timestamp.upToTwoDigits? s
  let clock (s : Bytes) := Timestamp.clock? Timestamp.upToTwoDigits? s
  date.any fun rest => match rest with
    | [] => true
    | c :: r =>
      if c == 84 || c == 116 then (clock r).any fun z => Timestamp.zone? z == some []
      else c == Ascii.space && clock r == some []

/-- What plain text stands for. -/
def ofPlain (s : Bytes) : Scalar :=
  match ofWord? s with
  | some v => v
  | none =>
    match s with
    | [] => .null
    | c :: _ =>
      if c == Ascii.dot then (double? s).getD (.string s)
      else if Ascii.isDigit c || c == Ascii.plus || c == Ascii.minus then
        if isTimestamp s then .string s else (number? s).getD (.string s)
      else .string s

/-- Minutes and seconds after a number, as in `1:30`. -/
def isSexagesimalTail : Bytes → Bool
  | [] => true
  | 58 :: a :: b :: s =>
    if Ascii.isDigit b then 48 ≤ a && a ≤ 53 && isSexagesimalTail s
    else Ascii.isDigit a && isSexagesimalTail (b :: s)
  | [58, a] => Ascii.isDigit a
  | 46 :: s => s.all fun c => Ascii.isDigit c || c == Ascii.underscore
  | _ => false

/-- Text like `1:30`, which some readers take for a number. -/
def isSexagesimal (s : Bytes) : Bool :=
  match unsigned s with
  | c :: r =>
    let tail := r.dropWhile fun x => Ascii.isDigit x || x == Ascii.underscore
    Ascii.isDigit c && tail.head? == some Ascii.colon && isSexagesimalTail tail
  | [] => false

/-- Plain text with this content reads back as a string. -/
def readsAsString (s : Bytes) : Bool :=
  match ofPlain s with
  | .string _ => !(isSexagesimal s) && !(isTimestamp s)
  | _ => false

end Scalar

end Yaml

end ConsoleShell
