/-
Quotes and escapes of a list of definitions.

A list of definitions is read twice.  First its bytes are cut into pieces at commas, and then the
characters of each piece are grouped into words.  Both readings follow quotes and escapes, each in
a way of its own, and the second one starts anew with every piece.  Here how a byte is read is
said once, and both are shown to follow it: what is between quotes or after a backslash for one
is so for the other.  That characters have several bytes does not matter, as none of them but
the last and only byte of a character of ASCII opens or closes anything.
-/
import ConsoleShell.DefinitionList
import ConsoleShell.Proofs.Text.Utf8

namespace ConsoleShell

/-! ### Reading bytes -/

namespace DefinitionList

/-- How the next byte of a list is read. -/
structure Reading where
  /-- The quote that is open. -/
  quote : Option UInt8 := none
  /-- The byte before is a backslash that counts. -/
  escaped : Bool := false
  deriving DecidableEq, Repr

namespace Reading

/-- A backslash counts: it is not in single quotes, and no backslash that counts stands before
it. -/
def Escapes (x : Reading) : Prop := x.escaped = false ∧ x.quote ≠ some Ascii.singleQuote

instance (x : Reading) : Decidable x.Escapes :=
  inferInstanceAs (Decidable (x.escaped = false ∧ x.quote ≠ some Ascii.singleQuote))

/-- How the byte after the next one is read. -/
def byte (x : Reading) (c : UInt8) : Reading :=
  if x.escaped then { x with escaped := false }
  else if c = Ascii.backslash ∧ x.Escapes then { x with escaped := true }
  else if x.quote = some c then {}
  else if x.quote = none ∧ (c = Ascii.singleQuote ∨ c = Ascii.doubleQuote) then { quote := some c }
  else x

/-- How the byte after a text is read. -/
def read (x : Reading) (text : Bytes) : Reading := text.foldl byte x

lemma read_cons (x : Reading) (c : UInt8) (text : Bytes) :
    x.read (c :: text) = (x.byte c).read text := rfl

lemma read_append (x : Reading) (s t : Bytes) : x.read (s ++ t) = (x.read s).read t :=
  List.foldl_append

lemma byte_escaped {x : Reading} (h : x.escaped = true) (c : UInt8) :
    x.byte c = { x with escaped := false } := if_pos h

lemma byte_backslash {x : Reading} (h : x.Escapes) :
    x.byte Ascii.backslash = { x with escaped := true } := by
  rw [byte, if_neg (by simp [h.1]), if_pos ⟨rfl, h⟩]

/-- A byte that is neither a backslash that counts nor the open quote is in quotes. -/
lemma byte_quoted {q c : UInt8} (hback : c ≠ Ascii.backslash ∨ q = Ascii.singleQuote) (hc : c ≠ q) :
    Reading.byte { quote := some q } c = { quote := some q } := by
  have hescapes : ¬ (c = Ascii.backslash ∧ Escapes { quote := some q }) := by
    rintro ⟨rfl, -, hq⟩
    exact hq (congrArg some (hback.resolve_left (not_not_intro rfl)))
  rw [byte, if_neg (by simp), if_neg hescapes, if_neg (by simpa using Ne.symm hc), if_neg (by simp)]

/-- The open quote ends the quotes. -/
lemma byte_close {q : UInt8} (hback : q ≠ Ascii.backslash) :
    Reading.byte { quote := some q } q = {} := by
  rw [byte, if_neg (by simp), if_neg fun h => hback h.1, if_pos rfl]

/-- A byte that is neither a backslash nor a quote leaves the text unquoted. -/
lemma byte_bare {c : UInt8} (hback : c ≠ Ascii.backslash) (hsingle : c ≠ Ascii.singleQuote)
    (hdouble : c ≠ Ascii.doubleQuote) : Reading.byte {} c = {} := by
  simp [byte, hback, hsingle, hdouble]

lemma byte_open {c : UInt8} (hc : c = Ascii.singleQuote ∨ c = Ascii.doubleQuote) :
    Reading.byte {} c = { quote := some c } := by
  rcases hc with rfl | rfl <;> rfl

/-- Nothing but a backslash that counts escapes the next byte. -/
lemma escaped_byte {x : Reading} {c : UInt8} :
    (x.byte c).escaped = true ↔ c = Ascii.backslash ∧ x.Escapes := by
  constructor
  · intro h
    rw [byte] at h
    split_ifs at h with hesc hback hclose hopen
    · exact hback
    · exact absurd h hesc
  · rintro ⟨rfl, hx⟩
    rw [byte_backslash hx]

/-- Bytes beyond ASCII use up an escape and change nothing else. -/
lemma byte_of_high {x : Reading} {c : UInt8} (hquote : ∀ q, x.quote = some q → q.toNat < 128)
    (hc : 128 ≤ c.toNat) : x.byte c = { x with escaped := false } := by
  have hne (q : UInt8) (hq : q.toNat < 128) : c ≠ q := by
    rintro rfl
    omega
  cases hesc : x.escaped with
  | true => exact byte_escaped hesc c
  | false =>
    have hx : x = { x with escaped := false } := by rw [← hesc]
    rw [byte, if_neg (by simp [hesc]), if_neg fun h => hne _ (by decide) h.1,
      if_neg fun h => hne c (hquote c h) rfl, if_neg]
    · exact hx
    · rintro ⟨-, rfl | rfl⟩
      · exact hne _ (by decide) rfl
      · exact hne _ (by decide) rfl

lemma read_of_high {x : Reading} {text : Bytes} (hquote : ∀ q, x.quote = some q → q.toNat < 128)
    (hne : text ≠ []) (htext : ∀ c ∈ text, 128 ≤ c.toNat) :
    x.read text = { x with escaped := false } := by
  induction text generalizing x with
  | nil => exact absurd rfl hne
  | cons c text ih =>
    obtain ⟨hc, htext⟩ := List.forall_mem_cons.1 htext
    rw [read_cons, byte_of_high hquote hc]
    cases text with
    | nil => rfl
    | cons d text => exact ih hquote (List.cons_ne_nil d text) htext

end Reading

/-- The text ends with a backslash that counts. -/
def EndsEscaping (text : Bytes) : Prop :=
  ∃ front, text = front ++ [Ascii.backslash] ∧ (Reading.read {} front).Escapes

lemma endsEscaping_iff (text : Bytes) :
    EndsEscaping text ↔ (Reading.read {} text).escaped = true := by
  constructor
  · rintro ⟨front, rfl, h⟩
    rw [Reading.read_append]
    exact Reading.escaped_byte.2 ⟨rfl, h⟩
  · intro h
    rcases List.eq_nil_or_concat text with rfl | ⟨front, c, rfl⟩
    · cases h
    · rw [List.concat_eq_append, Reading.read_append] at h
      obtain ⟨rfl, hescapes⟩ := Reading.escaped_byte.1 h
      exact ⟨front, List.concat_eq_append, hescapes⟩

end DefinitionList

/-! ### Reading characters -/

namespace Words

namespace Mode

open DefinitionList (Reading)

/-- How the reader of words goes on after a character. -/
def next : Mode → Char → Mode
  | .plain, c => if c = '\\' then .escaped else if c = '\'' ∨ c = '"' then .quoted c else .plain
  | .quoted q, c =>
    if c = q then .plain else if c = '\\' ∧ q = '"' then .quotedEscape else .quoted q
  | .escaped, _ => .plain
  | .quotedEscape, _ => .quoted '"'

/-- The open quote is a quote. -/
def Proper (m : Mode) : Prop := ∀ q, m = .quoted q → q = '\'' ∨ q = '"'

lemma Proper.next {m : Mode} (hm : m.Proper) (c : Char) : (m.next c).Proper := by
  intro q hq
  cases m with
  | plain =>
    rw [Mode.next] at hq
    split_ifs at hq with hback hquote
    obtain rfl := Mode.quoted.inj hq
    exact hquote
  | quoted q' =>
    rw [Mode.next] at hq
    split_ifs at hq with hclose hback
    exact hm q hq
  | escaped => cases hq
  | quotedEscape => exact .inr (Mode.quoted.inj hq).symm

/-- What is missing where a text ends. -/
def fault? : Mode → Option Fault
  | .plain => none
  | .quoted _ => some .openQuote
  | .escaped | .quotedEscape => some .openEscape

/-- How the next byte is read where the reader of words stands. -/
def reading : Mode → Reading
  | .plain => {}
  | .quoted q => { quote := some q.toNat.toUInt8 }
  | .escaped => { escaped := true }
  | .quotedEscape => { quote := some Ascii.doubleQuote, escaped := true }

lemma quote_reading {m : Mode} (hm : m.Proper) {q : UInt8} (hq : m.reading.quote = some q) :
    q = Ascii.singleQuote ∨ q = Ascii.doubleQuote := by
  cases m with
  | plain => cases hq
  | quoted q' =>
    obtain rfl := Option.some.inj hq
    rcases hm q' rfl with rfl | rfl
    · exact .inl rfl
    · exact .inr rfl
  | escaped => cases hq
  | quotedEscape => exact .inr (Option.some.inj hq).symm

/-- A character of ASCII is read as its byte is. -/
lemma reading_next_of_lt {m : Mode} (hm : m.Proper) {c : Char} (hc : c.toNat < 128) :
    (m.next c).reading = m.reading.byte c.toNat.toUInt8 := by
  have hiff (x : Char) (hx : x.toNat < 128) : c.toNat.toUInt8 = x.toNat.toUInt8 ↔ c = x := by
    rw [← Char.toNat_inj, ← UInt8.toNat_inj]
    simp only [Nat.toUInt8_eq, UInt8.toNat_ofNat']
    omega
  have hback : c.toNat.toUInt8 = Ascii.backslash ↔ c = '\\' := hiff '\\' (by decide)
  have hsingle : c.toNat.toUInt8 = Ascii.singleQuote ↔ c = '\'' := hiff '\'' (by decide)
  have hdouble : c.toNat.toUInt8 = Ascii.doubleQuote ↔ c = '"' := hiff '"' (by decide)
  cases m with
  | plain =>
    by_cases hb : c = '\\'
    · subst hb
      rfl
    by_cases hq : c = '\'' ∨ c = '"'
    · rw [next, if_neg hb, if_pos hq, reading, reading, Reading.byte_open]
      rwa [hsingle, hdouble]
    · obtain ⟨hs, hd⟩ := not_or.1 hq
      rw [next, if_neg hb, if_neg hq, reading,
        Reading.byte_bare (mt hback.1 hb) (mt hsingle.1 hs) (mt hdouble.1 hd)]
  | quoted q =>
    by_cases hclose : c = q
    · subst hclose
      rw [next, if_pos rfl]
      rcases hm c rfl with rfl | rfl <;> rfl
    by_cases hescape : c = '\\' ∧ q = '"'
    · obtain ⟨rfl, rfl⟩ := hescape
      rfl
    · rw [next, if_neg hclose, if_neg hescape, reading, Reading.byte_quoted]
      · rcases hm q rfl with rfl | rfl
        · exact .inr rfl
        · exact .inl fun h => hescape ⟨hback.1 h, rfl⟩
      · rcases hm q rfl with rfl | rfl
        · exact mt hsingle.1 hclose
        · exact mt hdouble.1 hclose
  | escaped => rfl
  | quotedEscape => rfl

/-- A character beyond ASCII ends an escape and means nothing else. -/
lemma reading_next_of_high {m : Mode} (hm : m.Proper) {c : Char}
    (hc : c ≠ '\\' ∧ c ≠ '\'' ∧ c ≠ '"') :
    (m.next c).reading = { m.reading with escaped := false } := by
  obtain ⟨hback, hsingle, hdouble⟩ := hc
  cases m with
  | plain =>
    rw [next, if_neg hback, if_neg (not_or.2 ⟨hsingle, hdouble⟩)]
    rfl
  | quoted q =>
    have hclose : c ≠ q := by
      rcases hm q rfl with rfl | rfl
      · exact hsingle
      · exact hdouble
    rw [next, if_neg hclose, if_neg fun h => hback h.1]
    rfl
  | escaped => rfl
  | quotedEscape => rfl

/-- A piece of a text is read as its bytes are.  A stray byte is beyond ASCII like the character
that stands for it. -/
lemma reading_next {m : Mode} (hm : m.Proper) {p : Utf8.Piece}
    (hp : ∀ b, p = .stray b → 128 ≤ b.toNat) :
    (m.next p.toChar).reading = m.reading.read p.bytes := by
  have hquote : ∀ q, m.reading.quote = some q → q.toNat < 128 := by
    intro q hq
    rcases quote_reading hm hq with rfl | rfl <;> decide
  cases p with
  | stray b =>
    rw [Utf8.Piece.toChar, Utf8.Piece.bytes, reading_next_of_high hm (by decide),
      Reading.read_of_high hquote (by simp) (by simpa using hp b rfl)]
  | char c =>
    rw [Utf8.Piece.toChar, Utf8.Piece.bytes]
    rcases Utf8.encodeChar_cases c with ⟨hc, heq⟩ | hhigh
    · rw [heq, reading_next_of_lt hm hc]
      rfl
    · have hne (x : Char) (b : UInt8) (hb : b ∈ Utf8.encodeChar x) (hlt : b.toNat < 128) :
          c ≠ x := by
        rintro rfl
        exact absurd (hhigh b hb) (by omega)
      obtain ⟨a, r, hbytes, -⟩ := Utf8.exists_encodeChar_eq_cons c []
      have hplain : c ≠ '\\' ∧ c ≠ '\'' ∧ c ≠ '"' :=
        ⟨hne _ 92 (by decide) (by decide), hne _ 39 (by decide) (by decide),
          hne _ 34 (by decide) (by decide)⟩
      rw [reading_next_of_high hm hplain,
        Reading.read_of_high hquote (by simp [hbytes]) hhigh]

lemma read_flatMap_bytes {m : Mode} (hm : m.Proper) {ps : List Utf8.Piece}
    (hps : ∀ b, .stray b ∈ ps → 128 ≤ b.toNat) :
    m.reading.read (ps.flatMap Utf8.Piece.bytes) =
      ((ps.map Utf8.Piece.toChar).foldl next m).reading := by
  induction ps generalizing m with
  | nil => rfl
  | cons p ps ih =>
    have hp : ∀ b, p = .stray b → 128 ≤ b.toNat := fun b hb => hps b (hb ▸ List.mem_cons_self)
    rw [List.flatMap_cons, Reading.read_append, ← reading_next hm hp,
      ih (hm.next _) fun b hb => hps b (List.mem_cons_of_mem p hb)]
    rfl

end Mode

/-- The reader of words fails exactly if something is missing at the end. -/
lemma scan_eq_error_iff (m : Mode) (word cs : List Char) (f : Fault) :
    scan m word cs = .error f ↔ (cs.foldl Mode.next m).fault? = some f := by
  induction cs generalizing m word with
  | nil => cases m <;> simp [scan, Mode.fault?]
  | cons c cs ih =>
    have hmap (g : List (List Char) → List (List Char)) (x : Except Fault (List (List Char))) :
        x.map g = .error f ↔ x = .error f := by
      cases x <;> simp [Except.map]
    rw [List.foldl_cons]
    cases m with
    | plain =>
      rw [scan, Mode.next]
      by_cases hspace : Unicode.isSpace c = true
      · -- white space is none of the characters that change the mode
        have hne (x : Char) (hx : Unicode.isSpace x = false) : c ≠ x := by
          rintro rfl
          rw [hspace] at hx
          cases hx
        rw [if_pos hspace, hmap, if_neg (hne _ rfl), if_neg (not_or.2 ⟨hne _ rfl, hne _ rfl⟩)]
        exact ih _ _
      · simp only [if_neg hspace, beq_iff_eq, Bool.or_eq_true]
        split_ifs <;> exact ih _ _
    | quoted q =>
      simp only [scan, Mode.next, beq_iff_eq, Bool.and_eq_true]
      split_ifs <;> exact ih _ _
    | escaped => exact ih _ _
    | quotedEscape =>
      rw [scan, Mode.next]
      split_ifs <;> exact ih _ _

end Words

namespace DefinitionList

/-- What is missing where a text ends that is read as a piece. -/
def Reading.fault? (x : Reading) : Option Words.Fault :=
  if x.escaped then some .openEscape else if x.quote.isSome then some .openQuote else none

lemma fault?_reading (m : Words.Mode) : m.reading.fault? = m.fault? := by
  cases m <;> rfl

/-- **The reader of words follows the bytes of a piece.**  It fails exactly if they end in quotes
or after a backslash that counts. -/
lemma split_eq_error_iff (piece : Bytes) (f : Words.Fault) :
    Words.split piece = .error f ↔ (Reading.read {} piece).fault? = some f := by
  have hsplit : Words.split piece = .error f ↔
      Words.scan .plain [] (Utf8.chars piece) = .error f := by
    rw [Words.split]
    cases Words.scan .plain [] (Utf8.chars piece) <;> simp [Except.map]
  have hread := @Words.Mode.read_flatMap_bytes .plain nofun (Utf8.decode piece)
    fun b hb => Utf8.high_of_stray hb
  rw [Utf8.flatMap_bytes_decode] at hread
  rw [hsplit, Words.scan_eq_error_iff, ← fault?_reading]
  exact hread ▸ Iff.rfl

/-! ### Pieces -/

/-- The pieces are read one after the other, from a given reading on: each but the last one leaves
the text bare, and the last one does so but for an escape. -/
def Closes (last : Bool) : Reading → List Bytes → Prop
  | _, [] => False
  | x, [p] => x.read p = { escaped := last }
  | x, p :: q :: ps => x.read p = {} ∧ Closes last {} (q :: ps)

/-- The pieces are what commas in the text separate, and nothing is left open at their ends but
what is left open at the end of the text. -/
structure Cuts (x : Reading) (text : Bytes) (ps : List Bytes) : Prop where
  closes : Closes (x.read text).escaped x ps
  join : Bytes.join [Ascii.comma] ps = text

namespace Cuts

variable {x y : Reading} {s text : Bytes} {ps : List Bytes}

/-- What is read before the first comma belongs to the first piece. -/
lemma extend (h : Cuts y s ps) (hy : x.read text = y) :
    Cuts x (text ++ s) (DefinitionList.extend text ps) := by
  subst hy
  obtain ⟨hcloses, rfl⟩ := h
  rw [← Reading.read_append] at hcloses
  match ps, hcloses with
  | [p], hcloses =>
    refine ⟨?_, rfl⟩
    show x.read (text ++ p) = _
    rwa [Reading.read_append]
  | p :: q :: ps, hcloses =>
    refine ⟨⟨?_, hcloses.2⟩, by simp [DefinitionList.extend, Bytes.join]⟩
    rw [Reading.read_append]
    exact hcloses.1

/-- A bare comma ends a piece. -/
lemma comma (h : Cuts {} s ps) : Cuts {} (Ascii.comma :: s) ([] :: ps) := by
  obtain ⟨hcloses, rfl⟩ := h
  match ps, hcloses with
  | p :: ps, hcloses => exact ⟨⟨rfl, hcloses⟩, rfl⟩

end Cuts

/-- Cutting a text at commas follows its quotes and escapes. -/
lemma cuts_of_pieces? {q : Option UInt8} {s : Bytes} {ps : List Bytes}
    (h : pieces? q s = some ps) : Cuts { quote := q } s ps := by
  fun_induction pieces? q s generalizing ps with
  | case1 =>
    obtain rfl := Option.some.inj h
    exact ⟨rfl, rfl⟩
  | case2 => cases h
  | case3 q c hc =>
    -- a backslash at the end of the text, which is not in quotes
    cases q with
    | some q => cases h
    | none =>
      obtain rfl := Option.some.inj h
      simp only [Bool.and_eq_true, beq_iff_eq] at hc
      obtain ⟨rfl, -⟩ := hc
      exact ⟨rfl, rfl⟩
  | case4 q c hc d r ih =>
    obtain ⟨ps, hps, rfl⟩ := Option.map_eq_some_iff.1 h
    simp only [Bool.and_eq_true, beq_iff_eq, bne_iff_ne] at hc
    obtain ⟨rfl, hq⟩ := hc
    have hread : Reading.read { quote := q } [Ascii.backslash, d] = { quote := q } := by
      rw [Reading.read_cons, Reading.byte_backslash ⟨rfl, hq⟩]
      rfl
    exact (ih hps).extend hread
  | case5 c s q hc ih =>
    obtain ⟨ps, hps, rfl⟩ := Option.map_eq_some_iff.1 h
    simp only [Bool.and_eq_true, beq_iff_eq, bne_iff_ne, not_and, not_not, Option.some.injEq] at hc
    have hread : Reading.read { quote := some q } [c] =
        { quote := if c == q then none else some q } := by
      rw [Reading.read_cons]
      by_cases hclose : c = q
      · subst hclose
        rw [if_pos (beq_self_eq_true c), Reading.byte_close]
        · rfl
        · rintro rfl
          exact absurd (hc rfl) (by decide)
      · rw [if_neg (by simpa using hclose), Reading.byte_quoted _ hclose]
        · rfl
        · by_cases hback : c = Ascii.backslash
          · exact .inr (hc hback)
          · exact .inl hback
    exact (ih hps).extend hread
  | case6 c s hquote hc ih =>
    obtain ⟨ps, hps, rfl⟩ := Option.map_eq_some_iff.1 h
    simp only [Bool.or_eq_true, beq_iff_eq] at hquote
    have hread : Reading.read {} [c] = { quote := some c } := Reading.byte_open hquote
    exact (ih hps).extend hread
  | case7 c s hquote hcomma hc ih =>
    obtain ⟨ps, hps, rfl⟩ := Option.map_eq_some_iff.1 h
    obtain rfl : c = Ascii.comma := by simpa using hcomma
    exact (ih hps).comma
  | case8 c s hquote hcomma hc ih =>
    obtain ⟨ps, hps, rfl⟩ := Option.map_eq_some_iff.1 h
    simp only [Bool.or_eq_true, beq_iff_eq, not_or] at hquote
    have hback : c ≠ Ascii.backslash := by
      rintro rfl
      exact hc (by simp)
    have hread : Reading.read {} [c] = {} := Reading.byte_bare hback hquote.1 hquote.2
    exact (ih hps).extend hread

/-- Each piece begins bare, and so does what it ends with, but for an escape at the end of the
last one. -/
lemma Closes.read {last : Bool} {front back : List Bytes} {p : Bytes}
    (h : Closes last {} (front ++ p :: back)) :
    Reading.read {} p = if back = [] then { escaped := last } else {} := by
  induction front with
  | nil =>
    cases back with
    | nil => exact h
    | cons q back => exact h.1
  | cons q front ih =>
    refine ih ?_
    cases front with
    | nil => exact h.2
    | cons r front => exact h.2

/-- **Commas and words agree about quotes and escapes.**  The pieces of a list of definitions are
the list again with commas between them.  The reader of words finds no piece with quotes left
open, and it finds an escape left open exactly in the last piece of a list that ends with a
backslash that counts. -/
theorem pieces_leave_no_quote_open (defs : Bytes) (ps : List Bytes)
    (h : pieces? none defs = some ps) :
    Bytes.join [Ascii.comma] ps = defs ∧
      ∀ front p back, ps = front ++ p :: back →
        Words.split p ≠ .error .openQuote ∧
          (Words.split p = .error .openEscape ↔ back = [] ∧ EndsEscaping defs) := by
  obtain ⟨hcloses, hjoin⟩ := cuts_of_pieces? h
  refine ⟨hjoin, ?_⟩
  rintro front p back rfl
  have hread := hcloses.read
  rw [endsEscaping_iff, ne_eq, split_eq_error_iff, split_eq_error_iff, hread]
  cases (Reading.read {} defs).escaped <;> by_cases hback : back = [] <;>
    simp [hback, Reading.fault?]

/-- An escaped comma, a backslash in single quotes, an escaped quote in double quotes, and a stray
byte before a backslash at the end. -/
theorem pieces_leave_no_quote_open_stray :
    let defs : Bytes := [97, 92, 44, 39, 92, 39, 44, 34, 92, 34, 44, 34, 44, 195, 92]
    pieces? none defs = some [[97, 92, 44, 39, 92, 39], [34, 92, 34, 44, 34], [195, 92]] ∧
      Words.split [34, 92, 34, 44, 34] ≠ .error .openQuote ∧
      Words.split [195, 92] = .error .openEscape := by
  intro defs
  have hpieces : pieces? none defs =
      some [[97, 92, 44, 39, 92, 39], [34, 92, 34, 44, 34], [195, 92]] := by decide +kernel
  have hread := (pieces_leave_no_quote_open defs _ hpieces).2
  refine ⟨hpieces, (hread [_] _ [_] rfl).1, ?_⟩
  exact ((hread [_, _] _ [] rfl).2).2 ⟨rfl, defs.dropLast, by decide, by decide +kernel⟩

end DefinitionList

end ConsoleShell
