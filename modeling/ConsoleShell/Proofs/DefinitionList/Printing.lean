/-
Lists of definitions printed.

A definition is printed as its name, an equals sign and its value in single quotes; a single
quote of the value is printed between quotes of its own.  A value may be any text, as commas,
blanks, double quotes and backslashes mean nothing in single quotes.  What is printed for a list
is read back as that list: the reader of pieces and the reader of words leave single quotes at
the same places.
-/
import ConsoleShell.DefinitionList
import ConsoleShell.Proofs.Text.Splitting
import ConsoleShell.Proofs.Text.Utf8

namespace ConsoleShell

namespace DefinitionList

/-! ### Printing -/

/-- A byte of a value inside single quotes: the quotes are left for a single quote, which is
escaped outside them. -/
def escapeByte (b : UInt8) : Bytes :=
  if b = Ascii.singleQuote then
    [Ascii.singleQuote, Ascii.backslash, Ascii.singleQuote, Ascii.singleQuote]
  else [b]

/-- A value as it stands between its single quotes. -/
def escape (value : Bytes) : Bytes := value.flatMap escapeByte

lemma escape_cons (b : UInt8) (value : Bytes) :
    escape (b :: value) = escapeByte b ++ escape value := List.flatMap_cons

lemma escape_append (u v : Bytes) : escape (u ++ v) = escape u ++ escape v := List.flatMap_append

/-- A value in single quotes. -/
def quote (value : Bytes) : Bytes :=
  Ascii.singleQuote :: (escape value ++ [Ascii.singleQuote])

/-- A definition with its value in quotes. -/
def print (d : Definition) : Bytes := d.name ++ Ascii.equals :: quote d.value

/-- The definitions with commas between them. -/
def printAll (ds : List Definition) : Bytes := Bytes.join [Ascii.comma] (ds.map print)

/-- A character that may stand in a printed name: it ends neither a word nor a name, and begins
neither quotes nor an escape. -/
def NameCharacter (c : Char) : Prop :=
  Unicode.isSpace c = false ∧ c ∉ ['\\', '\'', '"', ',', '=']

/-- Letters, digits and underscores may stand in names. -/
lemma nameCharacter_of_isAlphanum {c : Char} (h : c.isAlphanum = true ∨ c = '_') :
    NameCharacter c := by
  have hnat : c.toNat = c.val.toNat := rfl
  have hbounds : 65 ≤ c.toNat ∧ c.toNat ≤ 90 ∨ 97 ≤ c.toNat ∧ c.toNat ≤ 122 ∨
      48 ≤ c.toNat ∧ c.toNat ≤ 57 ∨ c.toNat = 95 := by
    rcases h with h | rfl
    · simp [Char.isAlphanum, Char.isAlpha, Char.isUpper, Char.isLower, Char.isDigit,
        UInt32.le_iff_toNat_le] at h
      omega
    · decide
  refine ⟨?_, ?_⟩
  · simp only [Unicode.isSpace, Bool.or_eq_false_iff, Bool.and_eq_false_iff,
      decide_eq_false_iff_not, beq_eq_false_iff_ne]
    omega
  · intro hmem
    have hquoting : c.toNat ∈ ['\\', '\'', '"', ',', '='].map Char.toNat := List.mem_map_of_mem hmem
    simp at hquoting
    omega

/-- A definition that is read back from what is printed for it. -/
structure Printable (d : Definition) : Prop where
  name_ne_nil : d.name ≠ []
  isValid_name : Utf8.isValid d.name = true
  nameCharacter : ∀ c ∈ Utf8.chars d.name, NameCharacter c
  isValid_value : Utf8.isValid d.value = true

/-- A name of letters, digits and underscores may be printed with every value. -/
lemma printable_ofString {name : String} (hne : name ≠ "")
    (h : ∀ c ∈ name.toList, c.isAlphanum = true ∨ c = '_') (value : String) :
    Printable ⟨name, value⟩ where
  name_ne_nil := by
    obtain ⟨c, cs, hcs⟩ := List.exists_cons_of_ne_nil (mt String.toList_eq_nil_iff.1 hne)
    obtain ⟨b, r, hbytes, -⟩ := Utf8.exists_encodeChar_eq_cons c []
    simp [Utf8.ofString_eq_encode, hcs, Utf8.encode_cons, hbytes]
  isValid_name := (Utf8.ofString_eq_encode name).symm ▸ Utf8.isValid_encode _
  nameCharacter := by
    rw [Utf8.ofString_eq_encode, Utf8.chars_encode]
    exact fun c hc => nameCharacter_of_isAlphanum (h c hc)
  isValid_value := (Utf8.ofString_eq_encode value).symm ▸ Utf8.isValid_encode _

/-! ### Pieces -/

/-- A byte that the reader of pieces copies outside quotes. -/
def IsPlain (b : UInt8) : Prop :=
  b ∉ [Ascii.backslash, Ascii.singleQuote, Ascii.doubleQuote, Ascii.comma]

lemma isPlain_equals : IsPlain Ascii.equals := by
  rw [IsPlain]
  decide

/-- The bytes of a name character are plain and none of them is an equals sign. -/
lemma isPlain_of_mem_encode {cs : List Char} (hcs : ∀ c ∈ cs, NameCharacter c) {b : UInt8}
    (hb : b ∈ Utf8.encode cs) : IsPlain b ∧ b ≠ Ascii.equals := by
  obtain ⟨c, hc, hbc⟩ := List.mem_flatMap.1 hb
  have hname := (hcs c hc).2
  have hne (x : Char) (hx : x ∈ ['\\', '\'', '"', ',', '=']) (hlt : x.toNat < 128) :
      b.toNat ≠ x.toNat := fun h =>
    hname (Char.toNat_inj.1 ((Utf8.toNat_eq_of_mem_encodeChar hbc (h ▸ hlt)).trans h) ▸ hx)
  refine ⟨?_, fun h => hne '=' (by simp) (by decide) (congrArg UInt8.toNat h)⟩
  simp only [IsPlain, List.mem_cons, List.not_mem_nil, not_or, or_false]
  exact ⟨fun h => hne '\\' (by simp) (by decide) (congrArg UInt8.toNat h),
    fun h => hne '\'' (by simp) (by decide) (congrArg UInt8.toNat h),
    fun h => hne '"' (by simp) (by decide) (congrArg UInt8.toNat h),
    fun h => hne ',' (by simp) (by decide) (congrArg UInt8.toNat h)⟩

lemma Printable.name_eq {d : Definition} (hd : Printable d) :
    Utf8.encode (Utf8.chars d.name) = d.name := Utf8.sanitize_of_isValid hd.isValid_name

lemma Printable.value_eq {d : Definition} (hd : Printable d) :
    Utf8.encode (Utf8.chars d.value) = d.value := Utf8.sanitize_of_isValid hd.isValid_value

lemma Printable.isPlain_name {d : Definition} (hd : Printable d) {b : UInt8} (hb : b ∈ d.name) :
    IsPlain b ∧ b ≠ Ascii.equals :=
  isPlain_of_mem_encode hd.nameCharacter (hd.name_eq.symm ▸ hb)

section

variable {s p : Bytes} {ps : List Bytes}

lemma pieces?_open (h : pieces? (some Ascii.singleQuote) s = some (p :: ps)) :
    pieces? none (Ascii.singleQuote :: s) = some ((Ascii.singleQuote :: p) :: ps) := by
  have hne : Ascii.singleQuote ≠ Ascii.backslash := by decide
  rw [pieces?.eq_def]
  simp [hne, h, extend]

lemma pieces?_close (h : pieces? none s = some (p :: ps)) :
    pieces? (some Ascii.singleQuote) (Ascii.singleQuote :: s) =
      some ((Ascii.singleQuote :: p) :: ps) := by
  rw [pieces?.eq_def]
  simp [h, extend]

lemma pieces?_escaped (b : UInt8) (h : pieces? none s = some (p :: ps)) :
    pieces? none (Ascii.backslash :: b :: s) = some ((Ascii.backslash :: b :: p) :: ps) := by
  rw [pieces?.eq_def]
  simp [h, extend]

lemma pieces?_quoted {b : UInt8} (hb : b ≠ Ascii.singleQuote)
    (h : pieces? (some Ascii.singleQuote) s = some (p :: ps)) :
    pieces? (some Ascii.singleQuote) (b :: s) = some ((b :: p) :: ps) := by
  rw [pieces?.eq_def]
  simp [hb, h, extend]

lemma pieces?_plain {b : UInt8} (hb : IsPlain b) (h : pieces? none s = some (p :: ps)) :
    pieces? none (b :: s) = some ((b :: p) :: ps) := by
  simp only [IsPlain, List.mem_cons, List.not_mem_nil, not_or] at hb
  obtain ⟨hbackslash, hsingle, hdouble, hcomma, -⟩ := hb
  rw [pieces?.eq_def]
  simp [hbackslash, hsingle, hdouble, hcomma, h, extend]

lemma pieces?_append {w : Bytes} (hw : ∀ b ∈ w, IsPlain b) (h : pieces? none s = some (p :: ps)) :
    pieces? none (w ++ s) = some ((w ++ p) :: ps) := by
  induction w with
  | nil => exact h
  | cons b w ih =>
    rw [List.forall_mem_cons] at hw
    exact pieces?_plain hw.1 (ih hw.2)

/-- A printed value is copied.  The reader of pieces is in single quotes before each of its
bytes. -/
lemma pieces?_quote (w : Bytes) (h : pieces? none s = some (p :: ps)) :
    pieces? none (quote w ++ s) = some ((quote w ++ p) :: ps) := by
  have hescape : pieces? (some Ascii.singleQuote) (escape w ++ Ascii.singleQuote :: s) =
      some ((escape w ++ Ascii.singleQuote :: p) :: ps) := by
    induction w with
    | nil => exact pieces?_close h
    | cons b w ih =>
      rw [escape_cons, escapeByte]
      split_ifs with hb
      · exact pieces?_close (pieces?_escaped _ (pieces?_open ih))
      · exact pieces?_quoted hb ih
  simpa only [quote, List.cons_append, List.append_assoc, List.nil_append] using
    pieces?_open hescape

/-- A printed definition is copied whole into the piece that it begins. -/
lemma pieces?_print {d : Definition} (hd : Printable d) (h : pieces? none s = some (p :: ps)) :
    pieces? none (print d ++ s) = some ((print d ++ p) :: ps) := by
  rw [print, List.append_assoc, List.append_assoc]
  exact pieces?_append (fun b hb => (hd.isPlain_name hb).1)
    (pieces?_plain isPlain_equals (pieces?_quote d.value h))

lemma pieces?_comma (h : pieces? none s = some ps) :
    pieces? none (Ascii.comma :: s) = some ([] :: ps) := by
  rw [pieces?.eq_def]
  simp [h, show Ascii.comma ≠ Ascii.backslash by decide,
    show Ascii.comma ≠ Ascii.singleQuote by decide, show Ascii.comma ≠ Ascii.doubleQuote by decide]

end

/-- The commas between printed definitions, and no others, end a piece. -/
lemma pieces?_printAll {ds : List Definition} (hds : ∀ d ∈ ds, Printable d) (hne : ds ≠ []) :
    pieces? none (printAll ds) = some (ds.map print) := by
  induction ds with
  | nil => exact absurd rfl hne
  | cons d ds ih =>
    rw [List.forall_mem_cons] at hds
    obtain ⟨hd, hds⟩ := hds
    cases ds with
    | nil => simpa [printAll, Bytes.join] using pieces?_print hd (s := []) (p := []) rfl
    | cons e ds =>
      have hrest := pieces?_comma (ih hds (List.cons_ne_nil e ds))
      simpa [printAll, Bytes.join] using pieces?_print hd hrest

/-! ### Words -/

/-- The characters of a value between its single quotes. -/
def escapeChars (cs : List Char) : List Char :=
  cs.flatMap fun c => if c = '\'' then ['\'', '\\', '\'', '\''] else [c]

lemma escapeChars_cons (c : Char) (cs : List Char) :
    escapeChars (c :: cs) =
      (if c = '\'' then ['\'', '\\', '\'', '\''] else [c]) ++ escapeChars cs :=
  List.flatMap_cons

lemma escape_encodeChar {c : Char} (hc : c ≠ '\'') :
    escape (Utf8.encodeChar c) = Utf8.encodeChar c := by
  rw [escape]
  conv_rhs => rw [← List.flatMap_singleton' (Utf8.encodeChar c)]
  refine List.flatMap_congr fun b hb => if_neg ?_
  rintro rfl
  exact hc (Char.toNat_inj.1 (Utf8.toNat_eq_of_mem_encodeChar hb (by decide)))

/-- Escaping the bytes of a text is escaping its characters. -/
lemma escape_encode (cs : List Char) : escape (Utf8.encode cs) = Utf8.encode (escapeChars cs) := by
  induction cs with
  | nil => rfl
  | cons c cs ih =>
    rw [Utf8.encode_cons, escape_append, ih, escapeChars_cons, Utf8.encode_append]
    split_ifs with hc
    · subst hc
      rfl
    · rw [escape_encodeChar hc, Utf8.encode_cons, Utf8.encode_nil, List.append_nil]

/-- The reader of words takes a name character into the word. -/
lemma scan_name {cs : List Char} (hcs : ∀ c ∈ cs, NameCharacter c) (word rest : List Char) :
    Words.scan .plain word (cs ++ rest) = Words.scan .plain (word ++ cs) rest := by
  induction cs generalizing word with
  | nil => rw [List.nil_append, List.append_nil]
  | cons c cs ih =>
    rw [List.forall_mem_cons] at hcs
    obtain ⟨⟨hspace, hc⟩, hcs⟩ := hcs
    simp only [List.mem_cons, List.not_mem_nil, not_or] at hc
    rw [List.cons_append, Words.scan, if_neg (by simp [hspace]), if_neg (by simp [hc]),
      if_neg (by simp [hc]), ih hcs, List.append_assoc, List.singleton_append]

/-- In single quotes the reader of words takes every character of the value into the word; it
leaves the quotes for a single quote only. -/
lemma scan_escapeChars (cs word rest : List Char) :
    Words.scan (.quoted '\'') word (escapeChars cs ++ '\'' :: rest) =
      Words.scan .plain (word ++ cs) rest := by
  induction cs generalizing word with
  | nil => simp [escapeChars, Words.scan]
  | cons c cs ih =>
    rw [escapeChars_cons]
    split_ifs with hc
    · subst hc
      simp [Words.scan, Unicode.isSpace, ih]
    · simp [Words.scan, hc, ih]

lemma encode_single {c : Char} {b : UInt8} (h : Utf8.encodeChar c = [b]) (cs : List Char) :
    Utf8.encode (c :: cs) = b :: Utf8.encode cs := by
  rw [Utf8.encode_cons, h, List.singleton_append]

/-- What is printed for a definition, as characters. -/
lemma print_eq_encode {d : Definition} (hd : Printable d) :
    print d = Utf8.encode
      (Utf8.chars d.name ++ '=' :: '\'' :: (escapeChars (Utf8.chars d.value) ++ ['\''])) := by
  rw [Utf8.encode_append, encode_single (b := Ascii.equals) rfl,
    encode_single (b := Ascii.singleQuote) rfl, Utf8.encode_append, ← escape_encode, hd.name_eq,
    hd.value_eq]
  rfl

/-- A printed definition is one word: its name, an equals sign and its value. -/
lemma split_print {d : Definition} (hd : Printable d) :
    Words.split (print d) = .ok [d.name ++ Ascii.equals :: d.value] := by
  have hscan : Words.scan .plain [] (Utf8.chars (print d)) =
      .ok [Utf8.chars d.name ++ '=' :: Utf8.chars d.value] := by
    rw [print_eq_encode hd, Utf8.chars_encode, scan_name hd.nameCharacter]
    simp [Words.scan, Unicode.isSpace, scan_escapeChars, Words.flush]
  rw [Words.split, hscan]
  simp only [Except.map, List.map_cons, List.map_nil, Utf8.encode_append, hd.name_eq, hd.value_eq,
    encode_single (c := '=') (b := Ascii.equals) rfl]

/-! ### Definitions -/

/-- The piece is a white space character. -/
def isBlank : Utf8.Piece → Bool
  | .char c => Unicode.isSpace c
  | .stray _ => false

lemma trim_eq (s : Bytes) :
    s.trim = ((((Utf8.decode s).dropWhile isBlank).reverse.dropWhile isBlank).reverse).flatMap
      Utf8.Piece.bytes := rfl

lemma dropWhile_eq_self {ps : List Utf8.Piece} (h : ∀ p ∈ ps, isBlank p = false) :
    ps.dropWhile isBlank = ps := by
  cases ps with
  | nil => rfl
  | cons p ps => exact List.dropWhile_cons_of_neg (by simp [h p List.mem_cons_self])

lemma trim_of_not_isSpace {s : Bytes} (h : ∀ c ∈ Utf8.chars s, Unicode.isSpace c = false) :
    s.trim = s := by
  have hblank : ∀ p ∈ Utf8.decode s, isBlank p = false := by
    intro p hp
    cases p with
    | char c => exact h c (List.mem_map_of_mem hp)
    | stray b => rfl
  rw [trim_eq, dropWhile_eq_self hblank,
    dropWhile_eq_self fun p hp => hblank p (List.mem_reverse.1 hp), List.reverse_reverse,
    Utf8.flatMap_bytes_decode]

lemma parsePiece_print {d : Definition} (hd : Printable d) :
    parsePiece (print d) = .ok (some d) := by
  have hsplit := Bytes.splitAt?_append (fun b hb => (hd.isPlain_name hb).2) d.value
  have htrim : d.name.trim = d.name := trim_of_not_isSpace fun c hc => (hd.nameCharacter c hc).1
  simp only [parsePiece, split_print hd, Bytes.join, hsplit]
  split
  · contradiction
  · rename_i h
    exact absurd (congrArg Prod.fst (Option.some.inj h)) hd.name_ne_nil
  · rename_i h
    obtain ⟨rfl, rfl⟩ := Prod.mk.inj (Option.some.inj h)
    rw [htrim]

lemma parsePieces_print {ds : List Definition} (hds : ∀ d ∈ ds, Printable d) :
    parsePieces (ds.map print) = .ok ds := by
  induction ds with
  | nil => rfl
  | cons d ds ih =>
    rw [List.forall_mem_cons] at hds
    simp only [List.map_cons, parsePieces, parsePiece_print hds.1, ih hds.2, Option.toList_some,
      List.singleton_append]

/-- A list without words has no definitions. -/
lemma parse_nil : parse [] = .ok [] := by
  have hsplit : Words.split [] = .ok [] := by
    rw [Words.split, ← Utf8.encode_nil, Utf8.chars_encode]
    rfl
  simp only [parse, pieces?, parsePieces, parsePiece, hsplit, Option.toList_none, List.append_nil]

/-- What is printed for a list of definitions is read back as that list, whatever texts their
values are. -/
theorem parse_printAll {ds : List Definition} (hds : ∀ d ∈ ds, Printable d) :
    parse (printAll ds) = .ok ds := by
  by_cases hne : ds = []
  · subst hne
    exact parse_nil
  · simp only [parse, pieces?_printAll hds hne, parsePieces_print hds]

/-- Commas, quotes of both kinds, backslashes, equals signs, blanks, a newline and a letter beyond
ASCII in values, and a value without bytes. -/
theorem parse_printAll_awkward :
    let ds : List Definition :=
      [⟨"DESC", " it's, \"pump\"  = \\ "⟩, ⟨"P_1", ""⟩, ⟨"x", "\\'\n,é'"⟩]
    (∀ d ∈ ds, Printable d) ∧
      printAll ds =
        ("DESC=' it'\\''s, \"pump\"  = \\ ',P_1='',x='\\'\\''\n,é'\\'''" : Bytes) ∧
      parse (printAll ds) = .ok ds := by
  intro ds
  have hds : ∀ d ∈ ds, Printable d := by
    simp only [ds, List.forall_mem_cons]
    exact ⟨printable_ofString (by decide) (by simp) _, printable_ofString (by decide) (by simp) _,
      printable_ofString (by decide) (by simp) _, List.forall_mem_nil _⟩
  exact ⟨hds, by decide +kernel, parse_printAll hds⟩

end DefinitionList

end ConsoleShell
