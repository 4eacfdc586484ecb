/-
Words of a text with quotes and escapes.

Words are separated by white space of any script.  Text in single quotes is literal; in
double quotes a backslash escapes only a double quote or another backslash and is kept
before anything else; outside quotes a backslash makes the next character literal.  A
word without characters is dropped.  The text is read as characters, so stray bytes turn
into the replacement character.
-/
import ConsoleShell.Text.Utf8
import ConsoleShell.Text.Unicode

namespace ConsoleShell

namespace Words

/-- Why a text has no words. -/
inductive Fault where
  | openQuote
  | openEscape
  deriving DecidableEq, Repr

/-- The diagnostic for a text without words. -/
def Fault.message : Fault → Bytes
  | .openQuote => "No closing quotation"
  | .openEscape => "No escaped character"

/-- Where the reader stands. -/
inductive Mode where
  /-- Outside quotes, between words or in a word. -/
  | plain
  /-- In quotes. -/
  | quoted (quote : Char)
  /-- After a backslash outside quotes. -/
  | escaped
  /-- After a backslash in double quotes. -/
  | quotedEscape
  deriving DecidableEq, Repr

/-- Ends a word, which is dropped if it is empty. -/
def flush (word : List Char) (words : List (List Char)) : List (List Char) :=
  if word.isEmpty then words else word :: words

/-- Reads characters, with the word so far before them. -/
def scan : Mode → List Char → List Char → Except Fault (List (List Char))
  | .plain, word, [] => .ok (flush word [])
  | .quoted _, _, [] => .error .openQuote
  | .escaped, _, [] => .error .openEscape
  | .quotedEscape, _, [] => .error .openEscape
  | .plain, word, c :: cs =>
    if Unicode.isSpace c then (scan .plain [] cs).map (flush word)
    else if c == '\\' then scan .escaped word cs
    else if c == '\'' || c == '"' then scan (.quoted c) word cs
    else scan .plain (word ++ [c]) cs
  | .quoted q, word, c :: cs =>
    if c == q then scan .plain word cs
    else if c == '\\' && q == '"' then scan .quotedEscape word cs
    else scan (.quoted q) (word ++ [c]) cs
  | .escaped, word, c :: cs => scan .plain (word ++ [c]) cs
  | .quotedEscape, word, c :: cs =>
    if c == '"' || c == '\\' then scan (.quoted '"') (word ++ [c]) cs
    else scan (.quoted '"') (word ++ ['\\', c]) cs

/-- The words of a text. -/
def split (s : Bytes) : Except Fault (List Bytes) :=
  (scan .plain [] (Utf8.chars s)).map fun ws => ws.map Utf8.encode

end Words

/-- Without white space of any script at its ends; stray bytes are not white space. -/
def Bytes.trim (s : Bytes) : Bytes :=
  let blank : Utf8.Piece → Bool
    | .char c => Unicode.isSpace c
    | .stray _ => false
  let pieces := (Utf8.decode s).dropWhile blank
  ((pieces.reverse.dropWhile blank).reverse).flatMap Utf8.Piece.bytes

end ConsoleShell
