/-
Texts with escapes, piece by piece.

A text with escapes is a sequence of pieces, each of which stands for one byte: a byte other than a
backslash for itself, three octal digits or two hexadecimal ones for their value, a letter for the
byte that the language C gives it.  Such a piece is read as a whole whatever comes after it, because
an escape takes at most that many digits.  So a sequence of pieces is replaced by the bytes that the
pieces stand for, and every byte can be written as a piece.
-/
import ConsoleShell.Proofs.Number.Literal
import ConsoleShell.Text.Escapes

namespace ConsoleShell

namespace Escapes

/-! ### Pieces -/

/-- The letters and signs that stand for a byte behind a backslash, each with that byte. -/
def letters : List (UInt8 × UInt8) :=
  [(97, 7), (98, 8), (102, 12), (110, 10), (114, 13), (116, 9), (118, 11), (92, 92), (39, 39),
    (34, 34), (63, 63)]

/-- A hexadecimal digit, with the case in which it is written if it is a letter. -/
structure HexDigit where
  value : Fin 16
  capital : Bool
  deriving DecidableEq, Repr

/-- A digit as it is written. -/
def HexDigit.byte (d : HexDigit) : UInt8 :=
  if d.value < 10 then UInt8.ofNat (48 + d.value)
  else UInt8.ofNat ((if d.capital then 55 else 87) + d.value)

/-- An octal digit as it is written. -/
def octalByte (d : Fin 8) : UInt8 := UInt8.ofNat (48 + d)

/-- A part of a text that stands for one byte. -/
inductive Piece where
  | plain (c : UInt8) (hc : c ≠ Ascii.backslash)
  | octal (i j k : Fin 8)
  | hexadecimal (i j : HexDigit)
  | letter (l : UInt8 × UInt8) (hl : l ∈ letters)

namespace Piece

/-- A piece as it is written. -/
def text : Piece → Bytes
  | plain c _ => [c]
  | octal i j k => [Ascii.backslash, octalByte i, octalByte j, octalByte k]
  | hexadecimal i j => [Ascii.backslash, 120, i.byte, j.byte]
  | letter l _ => [Ascii.backslash, l.1]

/-- The byte that a piece stands for; an octal number is reduced to one byte. -/
def value : Piece → UInt8
  | plain c _ => c
  | octal i j k => UInt8.ofNat (64 * i + 8 * j + k)
  | hexadecimal i j => UInt8.ofNat (16 * i.value + j.value)
  | letter l _ => l.2

/-- A byte as an escape of three octal digits. -/
def ofByte (c : UInt8) : Piece :=
  have hc := c.toNat_lt
  octal ⟨c.toNat / 64, by omega⟩ ⟨c.toNat / 8 % 8, by omega⟩ ⟨c.toNat % 8, by omega⟩

lemma value_ofByte (c : UInt8) : (ofByte c).value = c := by
  have hsum : 64 * (c.toNat / 64) + 8 * (c.toNat / 8 % 8) + c.toNat % 8 = c.toNat := by omega
  show UInt8.ofNat (64 * (c.toNat / 64) + 8 * (c.toNat / 8 % 8) + c.toNat % 8) = c
  rw [hsum, UInt8.ofNat_toNat]

end Piece

/-- A text of pieces. -/
def print (ps : List Piece) : Bytes := ps.flatMap Piece.text

/-! ### Digits -/

lemma isOctal_octalByte (d : Fin 8) : isOctal (octalByte d) = true := by
  revert d
  decide

lemma octalByte_ne (d : Fin 8) : octalByte d ≠ 120 ∧ octalByte d ≠ Ascii.backslash ∧
    octalByte d ≠ Ascii.dollar ∧ octalByte d ≠ Ascii.doubleQuote := by
  revert d
  decide

lemma digitValue?_octalByte (d : Fin 8) : Ascii.digitValue? (octalByte d) = some d.val := by
  revert d
  decide

lemma digitValue?_byte (d : HexDigit) : Ascii.digitValue? d.byte = some d.value.val := by
  obtain ⟨value, capital⟩ := d
  revert value capital
  decide

lemma isHex_byte (d : HexDigit) : isHex d.byte = true := by
  rw [isHex, digitValue?_byte, Option.any_some]
  exact decide_eq_true d.value.isLt

/-! ### Reading one piece -/

lemma escape?_octal (i j k : Fin 8) (s : Bytes) :
    escape? (octalByte i :: octalByte j :: octalByte k :: s) =
      some ((Piece.octal i j k).value, 3) := by
  -- an escape takes three digits at most, so digits that follow it are left
  have htake : ((octalByte i :: octalByte j :: octalByte k :: s).take 3).takeWhile isOctal =
      [octalByte i, octalByte j, octalByte k] := by
    simp [isOctal_octalByte]
  have hvalue : byteOf 8 [octalByte i, octalByte j, octalByte k] = (Piece.octal i j k).value := by
    have hsum : ((0 * 8 + i.val) * 8 + j.val) * 8 + k.val = 64 * i.val + 8 * j.val + k.val := by
      omega
    simp only [byteOf, List.foldl_cons, List.foldl_nil, digitValue?_octalByte, Option.getD_some,
      hsum]
    rfl
  rw [escape?, if_neg (by simpa using (octalByte_ne i).1), if_pos (isOctal_octalByte i), htake]
  dsimp only
  rw [hvalue]
  rfl

lemma escape?_hexadecimal (i j : HexDigit) (s : Bytes) :
    escape? (120 :: i.byte :: j.byte :: s) = some ((Piece.hexadecimal i j).value, 3) := by
  have htake : ((i.byte :: j.byte :: s).take 2).takeWhile isHex = [i.byte, j.byte] := by
    simp [isHex_byte]
  have hvalue : byteOf 16 [i.byte, j.byte] = (Piece.hexadecimal i j).value := by
    have hsum : (0 * 16 + i.value.val) * 16 + j.value.val = 16 * i.value.val + j.value.val := by
      omega
    simp only [byteOf, List.foldl_cons, List.foldl_nil, digitValue?_byte, Option.getD_some, hsum]
    rfl
  rw [escape?, if_pos (by decide), htake]
  dsimp only
  rw [hvalue]
  rfl

lemma escape?_letter {l : UInt8 × UInt8} (hl : l ∈ letters) (s : Bytes) :
    escape? (l.1 :: s) = some (l.2, 1) := by
  obtain ⟨hx, hoctal, hletter⟩ : l.1 ≠ 120 ∧ isOctal l.1 = false ∧ letter l.1 = l.2 := by
    fin_cases hl <;> exact ⟨by decide, rfl, rfl⟩
  rw [escape?, if_neg (by simpa using hx), if_neg (by simp [hoctal]), hletter]

lemma unescape_nil : unescape [] = [] := by rw [unescape]

lemma unescape_plain {c : UInt8} (hc : c ≠ Ascii.backslash) (s : Bytes) :
    unescape (c :: s) = c :: unescape s := by
  rw [unescape, if_neg (by simpa using hc)]

lemma unescape_escape {s : Bytes} {b : UInt8} {k : Nat} (h : escape? s = some (b, k)) :
    unescape (Ascii.backslash :: s) = b :: unescape (s.drop k) := by
  rw [unescape, if_pos (by decide), h]

/-- A piece is read as a whole, whatever comes after it. -/
lemma unescape_piece (p : Piece) (s : Bytes) : unescape (p.text ++ s) = p.value :: unescape s := by
  cases p with
  | plain c hc => exact unescape_plain hc s
  | octal i j k => exact unescape_escape (escape?_octal i j k s)
  | hexadecimal i j => exact unescape_escape (escape?_hexadecimal i j s)
  | letter l hl => exact unescape_escape (escape?_letter hl s)

/-! ### Reading a text -/

/-- A text of pieces is replaced by the bytes that they stand for. -/
lemma unescape_print_append (ps : List Piece) (s : Bytes) :
    unescape (print ps ++ s) = ps.map Piece.value ++ unescape s := by
  induction ps with
  | nil => rfl
  | cons p ps ih =>
    have hcons : print (p :: ps) ++ s = p.text ++ (print ps ++ s) := by
      simp [print]
    rw [hcons, unescape_piece, ih, List.map_cons, List.cons_append]

/-- What has no backslashes is a text of plain pieces. -/
lemma exists_plain {s : Bytes} (hs : Ascii.backslash ∉ s) :
    ∃ ps, print ps = s ∧ ps.map Piece.value = s := by
  induction s with
  | nil => exact ⟨[], rfl, rfl⟩
  | cons c s ih =>
    obtain ⟨hc, hs⟩ := not_or.1 (mt List.mem_cons.2 hs)
    obtain ⟨ps, htext, hvalue⟩ := ih hs
    refine ⟨.plain c (Ne.symm hc) :: ps, ?_, ?_⟩
    · rw [print, List.flatMap_cons, ← print, htext]
      rfl
    · rw [List.map_cons, hvalue]
      rfl

/-- Every text in escapes of three octal digits, one for each byte. -/
def octalText (s : Bytes) : Bytes := print (s.map Piece.ofByte)

lemma unescape_octalText (s : Bytes) : unescape (octalText s) = s := by
  have hread := unescape_print_append (s.map Piece.ofByte) []
  rw [List.append_nil, unescape_nil, List.append_nil, List.map_map] at hread
  refine hread.trans ((List.map_congr_left fun c _ => ?_).trans (List.map_id s))
  exact Piece.value_ofByte c

/-- Nothing in octal escapes means something in double quotes. -/
lemma notMem_octalText (s : Bytes) :
    Ascii.doubleQuote ∉ octalText s ∧ Ascii.dollar ∉ octalText s := by
  have hpiece {x : UInt8} (hx : x ≠ Ascii.backslash) (hdigit : ∀ d, octalByte d ≠ x) :
      x ∉ octalText s := by
    intro hmem
    obtain ⟨p, hp, hmem⟩ := List.mem_flatMap.1 hmem
    obtain ⟨c, -, rfl⟩ := List.mem_map.1 hp
    simp only [Piece.ofByte, Piece.text, List.mem_cons, List.not_mem_nil, or_false] at hmem
    rcases hmem with h | h | h | h
    · exact hx h
    · exact hdigit _ h.symm
    · exact hdigit _ h.symm
    · exact hdigit _ h.symm
  exact ⟨hpiece (by decide) fun d => (octalByte_ne d).2.2.2,
    hpiece (by decide) fun d => (octalByte_ne d).2.2.1⟩

end Escapes

end ConsoleShell
