/-
Names of parsed definitions.

The name of a definition is what stands before the first equals sign of its words, without white
space at its ends.  That it must not be empty is asked before the white space is taken off.  So
every name is free of equals signs and of white space at its ends, and the empty name is defined
exactly by the pieces that have nothing but quoted or escaped white space before the equals sign.
-/
import ConsoleShell.Proofs.DefinitionList.Printing
import ConsoleShell.Proofs.Line.Scoping

namespace ConsoleShell

/-! ### Texts without white space at their ends -/

namespace Utf8

lemma mem_encode_iff {b : UInt8} {c : Char} (hc : encodeChar c = [b]) (hlt : b.toNat < 128)
    (cs : List Char) : b ∈ encode cs ↔ c ∈ cs := by
  have hb : b ∈ encodeChar c := hc ▸ List.mem_singleton_self b
  constructor
  · intro hmem
    obtain ⟨d, hd, hbd⟩ := List.mem_flatMap.1 hmem
    have heq : d.toNat = c.toNat :=
      (toNat_eq_of_mem_encodeChar hbd hlt).trans (toNat_eq_of_mem_encodeChar hb hlt).symm
    rwa [Char.toNat_inj.1 heq] at hd
  · intro hmem
    exact List.mem_flatMap.2 ⟨c, hmem, hb⟩

lemma encode_eq_nil_iff {cs : List Char} : encode cs = [] ↔ cs = [] := by
  constructor
  · intro h
    rw [← chars_encode cs, h, ← encode_nil, chars_encode]
  · rintro rfl
    rfl

/-- The text neither begins nor ends with white space. -/
def Trimmed (s : Bytes) : Prop :=
  (∀ c, (chars s).head? = some c → Unicode.isSpace c = false) ∧
    ∀ c, (chars s).getLast? = some c → Unicode.isSpace c = false

/-- The characters without white space at their ends. -/
def trimChars (cs : List Char) : List Char :=
  (cs.dropWhile Unicode.isSpace).rdropWhile Unicode.isSpace

lemma trim_encode (cs : List Char) : (encode cs).trim = encode (trimChars cs) := by
  have hblank : DefinitionList.isBlank ∘ Piece.char = Unicode.isSpace := rfl
  rw [DefinitionList.trim_eq, decode_encode, List.dropWhile_map, ← List.map_reverse,
    List.dropWhile_map, ← List.map_reverse, hblank, List.flatMap_map]
  rfl

lemma trimChars_sublist (cs : List Char) : (trimChars cs).Sublist cs :=
  ((List.rdropWhile_prefix _ _).sublist).trans (List.dropWhile_sublist _)

lemma trimmed_encode_trimChars (cs : List Char) : Trimmed (encode (trimChars cs)) := by
  rw [Trimmed, chars_encode]
  by_cases hne : trimChars cs = []
  · simp [hne]
  -- what is left begins as it does before white space is taken off its end
  have hprefix : trimChars cs <+: cs.dropWhile Unicode.isSpace := List.rdropWhile_prefix _ _
  have hhead := hprefix.head hne
  have hlast := List.rdropWhile_last_not Unicode.isSpace (cs.dropWhile Unicode.isSpace) hne
  refine ⟨fun c hc => ?_, fun c hc => ?_⟩
  · rw [List.head?_eq_some_head hne, hhead] at hc
    rw [← Option.some.inj hc]
    exact List.head_dropWhile_not Unicode.isSpace _
  · rw [List.getLast?_eq_some_getLast hne] at hc
    rw [← Option.some.inj hc]
    exact Bool.eq_false_iff.2 hlast

lemma trimChars_eq_nil_iff {cs : List Char} :
    trimChars cs = [] ↔ ∀ c ∈ cs, Unicode.isSpace c = true := by
  rw [trimChars, List.rdropWhile_eq_nil_iff]
  constructor
  · intro h
    -- the first character that is left would not be white space
    by_contra hspace
    rw [← List.dropWhile_eq_nil_iff] at hspace
    have hhead := List.head_dropWhile_not Unicode.isSpace hspace
    rw [h _ (List.head_mem hspace)] at hhead
    cases hhead
  · exact fun h c hc => h c ((List.dropWhile_sublist _).mem hc)

end Utf8

namespace DefinitionList

open Utf8 (Trimmed trimChars)

/-! ### Pieces -/

/-- The words of the piece, with blanks between them, are a name that is not empty, an equals
sign and a value. -/
def Assigns (piece name value : Bytes) : Prop :=
  ∃ words, Words.split piece = .ok words ∧
    Bytes.join " " words = name ++ Ascii.equals :: value ∧ Ascii.equals ∉ name ∧ name ≠ []

/-- A piece defines what its words say, but for white space at the ends of the name. -/
lemma parsePiece_eq_some_iff {piece : Bytes} {d : Definition} :
    parsePiece piece = .ok (some d) ↔ ∃ name, Assigns piece name d.value ∧ d.name = name.trim := by
  constructor
  · intro h
    unfold parsePiece at h
    split at h
    · cases h
    · cases h
    · rename_i words hwords hsplit
      split at h
      · cases h
      · cases h
      · rename_i name value hname hat
        obtain rfl := Option.some.inj (Except.ok.inj h)
        obtain ⟨hjoin, hequals⟩ := Bytes.splitAt?_eq_some_iff.1 hat
        exact ⟨name, ⟨words, hsplit, hjoin, hequals, hname⟩, rfl⟩
  · rintro ⟨name, ⟨words, hsplit, hjoin, hequals, hne⟩, hname⟩
    have hat := Bytes.splitAt?_eq_some_iff.2 ⟨hjoin, hequals⟩
    have hwords : words ≠ [] := by
      rintro rfl
      exact absurd hjoin (by simp [Bytes.join])
    rw [parsePiece, hsplit]
    split
    · rename_i herror
      cases herror
    · rename_i hnil
      exact absurd (Except.ok.inj hnil) hwords
    · rename_i words' _ hok
      obtain rfl := Except.ok.inj hok
      simp only [hat, ← hname]

lemma exists_join_eq_encode (words : List (List Char)) :
    ∃ cs, Bytes.join " " (words.map Utf8.encode) = Utf8.encode cs := by
  have hspace : (" " : Bytes) = Utf8.encode [' '] := Utf8.ofString_eq_encode " "
  induction words with
  | nil => exact ⟨[], rfl⟩
  | cons w words ih =>
    obtain ⟨cs, hcs⟩ := ih
    cases words with
    | nil => exact ⟨w, rfl⟩
    | cons v words =>
      refine ⟨w ++ ' ' :: cs, ?_⟩
      rw [List.map_cons, List.map_cons, Bytes.join, ← List.map_cons, hcs, hspace,
        ← Utf8.encode_append, ← Utf8.encode_append, List.append_assoc]
      rfl

/-- The words of a piece are characters, and so is what stands before their first equals sign. -/
lemma Assigns.exists_chars {piece name value : Bytes} (h : Assigns piece name value) :
    ∃ cs, name = Utf8.encode cs := by
  obtain ⟨words, hsplit, hjoin, hequals, -⟩ := h
  rw [Words.split] at hsplit
  cases hscan : Words.scan .plain [] (Utf8.chars piece) with
  | error f => rw [hscan] at hsplit; cases hsplit
  | ok ws =>
    rw [hscan] at hsplit
    obtain rfl := Except.ok.inj hsplit
    obtain ⟨cs, hcs⟩ := exists_join_eq_encode ws
    rw [hcs] at hjoin
    -- the equals sign of the bytes is one of the characters, and the first one of both is the same
    have hmem : '=' ∈ cs := by
      rw [← Utf8.mem_encode_iff (b := Ascii.equals) rfl (by decide) cs, hjoin]
      exact List.mem_append_right name List.mem_cons_self
    obtain ⟨front, back, rfl, hfront⟩ := List.eq_append_cons_of_mem hmem
    rw [Utf8.encode_append, encode_single (b := Ascii.equals) rfl] at hjoin
    have hfront' : Ascii.equals ∉ Utf8.encode front :=
      mt (Utf8.mem_encode_iff rfl (by decide) front).1 hfront
    have hsame := (Bytes.splitAt?_eq_some_iff.2 ⟨hjoin, hequals⟩).symm.trans
      (Bytes.splitAt?_eq_some_iff.2 ⟨rfl, hfront'⟩)
    exact ⟨front, congrArg Prod.fst (Option.some.inj hsame)⟩

/-- The words of the piece have nothing but white space before their first equals sign, and they
have some. -/
def AssignsBlank (piece : Bytes) : Prop :=
  ∃ name value, Assigns piece name value ∧ ∀ c ∈ Utf8.chars name, Unicode.isSpace c = true

lemma equals_notMem_trim {cs : List Char} (h : Ascii.equals ∉ Utf8.encode cs) :
    Ascii.equals ∉ Utf8.encode (trimChars cs) := by
  have hiff := @Utf8.mem_encode_iff Ascii.equals '=' rfl (by decide)
  rw [hiff] at h ⊢
  exact fun hmem => h ((Utf8.trimChars_sublist cs).mem hmem)

lemma usable_of_parsePiece {piece : Bytes} {d : Definition} (h : parsePiece piece = .ok (some d)) :
    Ascii.equals ∉ d.name ∧ Trimmed d.name := by
  obtain ⟨name, hassigns, hname⟩ := parsePiece_eq_some_iff.1 h
  obtain ⟨cs, rfl⟩ := hassigns.exists_chars
  obtain ⟨-, -, -, hequals, -⟩ := hassigns
  rw [hname, Utf8.trim_encode]
  exact ⟨equals_notMem_trim hequals, Utf8.trimmed_encode_trimChars cs⟩

lemma exists_nameless_iff (piece : Bytes) :
    (∃ d, parsePiece piece = .ok (some d) ∧ d.name = []) ↔ AssignsBlank piece := by
  have hblank {cs : List Char} :
      (Utf8.encode cs).trim = [] ↔ ∀ c ∈ Utf8.chars (Utf8.encode cs), Unicode.isSpace c = true := by
    rw [Utf8.trim_encode, Utf8.encode_eq_nil_iff, Utf8.trimChars_eq_nil_iff, Utf8.chars_encode]
  constructor
  · rintro ⟨d, hd, hnil⟩
    obtain ⟨name, hassigns, hname⟩ := parsePiece_eq_some_iff.1 hd
    obtain ⟨cs, rfl⟩ := hassigns.exists_chars
    exact ⟨_, d.value, hassigns, hblank.1 (hname ▸ hnil)⟩
  · rintro ⟨name, value, hassigns, hspace⟩
    obtain ⟨cs, rfl⟩ := hassigns.exists_chars
    exact ⟨⟨_, value⟩, parsePiece_eq_some_iff.2 ⟨_, hassigns, rfl⟩, hblank.2 hspace⟩

/-! ### Lists -/

lemma mem_of_parsePieces {ps : List Bytes} {ds : List Definition} (h : parsePieces ps = .ok ds)
    (d : Definition) : d ∈ ds ↔ ∃ p ∈ ps, parsePiece p = .ok (some d) := by
  induction ps generalizing ds with
  | nil =>
    obtain rfl := Except.ok.inj h
    simp
  | cons p ps ih =>
    rw [parsePieces] at h
    cases hp : parsePiece p with
    | error f => rw [hp] at h; cases h
    | ok x =>
      cases hps : parsePieces ps with
      | error f => simp only [hp, hps] at h; cases h
      | ok es =>
        simp only [hp, hps] at h
        obtain rfl := Except.ok.inj h
        rw [List.mem_append, ih hps, Option.mem_toList]
        simp [hp]

/-- **The names of a parsed list, and when one of them is empty.**  No name has an equals sign in
it or white space at its ends.  All names have bytes, and installing the list defines no name
without bytes, exactly if no piece has nothing but white space before its first equals sign:
quoted or escaped white space passes for a name and is taken off afterwards. -/
theorem names_of_parse_iff {defs : Bytes} {ds : List Definition} (h : parse defs = .ok ds) :
    ∃ ps, pieces? none defs = some ps ∧
      (∀ d ∈ ds, Ascii.equals ∉ d.name ∧ Trimmed d.name) ∧
      ((∀ d ∈ ds, d.name ≠ []) ↔ ∀ p ∈ ps, ¬ AssignsBlank p) ∧
      ∀ m : Definitions, m.Lacks [] →
        ((m.install ds).Lacks [] ↔ ∀ p ∈ ps, ¬ AssignsBlank p) := by
  rw [parse] at h
  cases hps : pieces? none defs with
  | none => rw [hps] at h; cases h
  | some ps =>
    rw [hps] at h
    have hmem := mem_of_parsePieces h
    have hnames : (∀ d ∈ ds, d.name ≠ []) ↔ ∀ p ∈ ps, ¬ AssignsBlank p := by
      constructor
      · intro hne p hp hblank
        obtain ⟨d, hd, hnil⟩ := (exists_nameless_iff p).2 hblank
        exact hne d ((hmem d).2 ⟨p, hp, hd⟩) hnil
      · intro hblank d hd hnil
        obtain ⟨p, hp, hpd⟩ := (hmem d).1 hd
        exact hblank p hp ((exists_nameless_iff p).1 ⟨d, hpd, hnil⟩)
    refine ⟨ps, rfl, fun d hd => ?_, hnames, fun m hm => ?_⟩
    · obtain ⟨p, -, hp⟩ := (hmem d).1 hd
      exact usable_of_parsePiece hp
    · rw [Definitions.lacks_install_iff, hnames]
      exact and_iff_right hm

/-- The name of `" A "=1` is without its blanks, and nothing is left of the name of `' '=x`. -/
theorem names_of_parse_iff_quoted_blanks :
    let defs : Bytes := [34, 32, 65, 32, 34, 61, 49, 44, 39, 32, 39, 61, 120]
    parse defs = .ok [⟨[65], [49]⟩, ⟨[], [120]⟩] ∧ Trimmed [65] ∧
      ∃ ps, pieces? none defs = some ps ∧ ∃ p ∈ ps, AssignsBlank p := by
  intro defs
  have hparse : parse defs = .ok [⟨[65], [49]⟩, ⟨[], [120]⟩] := by decide +kernel
  obtain ⟨ps, hps, husable, hnames, -⟩ := names_of_parse_iff hparse
  refine ⟨hparse, (husable ⟨[65], [49]⟩ (by simp)).2, ps, hps, ?_⟩
  by_contra hnone
  have hne := hnames.2 fun p hp hblank => hnone ⟨p, hp, hblank⟩
  exact hne ⟨[], [120]⟩ (by simp) rfl

/-- The list `' '=x` is accepted, and the name without bytes has a value from then on. -/
theorem blank_name_is_accepted :
    parse [39, 32, 39, 61, 120] = .ok [⟨[], [120]⟩] ∧
      (({} : Definitions).install [⟨[], [120]⟩]).lookup (fun _ => none) [] = some [120] := by
  constructor
  · decide +kernel
  · decide +kernel

end DefinitionList

end ConsoleShell
