/-
Bytes and characters.

The pieces of a byte string are its bytes again, so a text without stray bytes is the encoding
of its characters, and the encoding of characters is read as those characters.  The replacement
character is longer than the stray byte that it stands for, so a text keeps its length exactly if
it has no stray bytes.
-/
import ConsoleShell.Text.Utf8
import Mathlib

namespace ConsoleShell

namespace Utf8

/-! ### One character -/

/-- The encoding of the character with a given value. -/
lemma encodeChar_ofNat {n : Nat} (h : n.isValidChar) :
    encodeChar (Char.ofNat n) =
      if n ≤ 127 then [UInt8.ofNat n]
      else if n ≤ 2047 then [UInt8.ofNat (n / 64 % 32 + 192), UInt8.ofNat (n % 64 + 128)]
      else if n ≤ 65535 then
        [UInt8.ofNat (n / 4096 % 16 + 224), UInt8.ofNat (n / 64 % 64 + 128),
          UInt8.ofNat (n % 64 + 128)]
      else
        [UInt8.ofNat (n / 262144 % 8 + 240), UInt8.ofNat (n / 4096 % 64 + 128),
          UInt8.ofNat (n / 64 % 64 + 128), UInt8.ofNat (n % 64 + 128)] := by
  have hvalue : (Char.ofNat n).val.toNat = n := by
    have hn := Char.toNat_ofNat n
    rwa [if_pos h] at hn
  rw [encodeChar, String.utf8EncodeChar, hvalue]

lemma ofNat_eq_of_eq_toNat {n : Nat} {b : UInt8} (h : n = b.toNat) : UInt8.ofNat n = b := by
  rw [h, UInt8.ofNat_toNat]

lemma isContinuation_iff {b : UInt8} :
    isContinuation b = true ↔ 128 ≤ b.toNat ∧ b.toNat ≤ 191 := by
  simp [isContinuation, UInt8.le_iff_toNat_le]

variable {a b c d : UInt8}

lemma encodeChar_one (ha : a.toNat < 128) : encodeChar (Char.ofNat a.toNat) = [a] := by
  rw [encodeChar_ofNat (.inl (by omega)), if_pos (by omega), UInt8.ofNat_toNat]

lemma encodeChar_two (ha : 194 ≤ a.toNat ∧ a.toNat ≤ 223) (hb : isContinuation b = true) :
    encodeChar (Char.ofNat ((a.toNat - 0xC0) * 64 + tail6 b)) = [a, b] := by
  rw [isContinuation_iff] at hb
  rw [tail6, encodeChar_ofNat (.inl (by omega)), if_neg (by omega), if_pos (by omega),
    ofNat_eq_of_eq_toNat (b := a) (by omega), ofNat_eq_of_eq_toNat (b := b) (by omega)]

/-- The bounds for the second byte leave out over-long forms and surrogates. -/
lemma encodeChar_three (ha : 224 ≤ a.toNat ∧ a.toNat ≤ 239) (hb : isContinuation b = true)
    (hlow : a = 0xE0 → 0xA0 ≤ b) (hhigh : a = 0xED → b ≤ 0x9F)
    (hc : isContinuation c = true) :
    encodeChar (Char.ofNat ((a.toNat - 0xE0) * 4096 + tail6 b * 64 + tail6 c)) = [a, b, c] := by
  rw [isContinuation_iff] at hb hc
  have hlow' : a.toNat = 224 → 160 ≤ b.toNat := fun h => hlow (UInt8.toNat_inj.1 h)
  have hhigh' : a.toNat = 237 → b.toNat ≤ 159 := fun h => hhigh (UInt8.toNat_inj.1 h)
  have hvalid : Nat.isValidChar ((a.toNat - 0xE0) * 4096 + tail6 b * 64 + tail6 c) := by
    rw [tail6, tail6, Nat.isValidChar]
    omega
  rw [encodeChar_ofNat hvalid, tail6, tail6, if_neg (by omega), if_neg (by omega),
    if_pos (by omega), ofNat_eq_of_eq_toNat (b := a) (by omega),
    ofNat_eq_of_eq_toNat (b := b) (by omega), ofNat_eq_of_eq_toNat (b := c) (by omega)]

/-- The bounds for the second byte leave out over-long forms and values above U+10FFFF. -/
lemma encodeChar_four (ha : 240 ≤ a.toNat ∧ a.toNat ≤ 244) (hb : isContinuation b = true)
    (hlow : a = 0xF0 → 0x90 ≤ b) (hhigh : a = 0xF4 → b ≤ 0x8F)
    (hc : isContinuation c = true) (hd : isContinuation d = true) :
    encodeChar (Char.ofNat ((a.toNat - 0xF0) * 262144 + tail6 b * 4096 + tail6 c * 64 + tail6 d)) =
      [a, b, c, d] := by
  rw [isContinuation_iff] at hb hc hd
  have hlow' : a.toNat = 240 → 144 ≤ b.toNat := fun h => hlow (UInt8.toNat_inj.1 h)
  have hhigh' : a.toNat = 244 → b.toNat ≤ 143 := fun h => hhigh (UInt8.toNat_inj.1 h)
  have hvalid : Nat.isValidChar
      ((a.toNat - 0xF0) * 262144 + tail6 b * 4096 + tail6 c * 64 + tail6 d) := by
    rw [tail6, tail6, tail6, Nat.isValidChar]
    omega
  rw [encodeChar_ofNat hvalid, tail6, tail6, tail6, if_neg (by omega), if_neg (by omega),
    if_neg (by omega), ofNat_eq_of_eq_toNat (b := a) (by omega),
    ofNat_eq_of_eq_toNat (b := b) (by omega), ofNat_eq_of_eq_toNat (b := c) (by omega),
    ofNat_eq_of_eq_toNat (b := d) (by omega)]

/-- What the bounds for a second byte say: they are narrower after one first byte each. -/
lemma bounds_of_second {first last low high : UInt8} (hfirst : 0x80 ≤ low) (hlast : high ≤ 0xBF)
    (hlow : (if a == first then low else 0x80) ≤ b) (hhigh : b ≤ if a == last then high else 0xBF) :
    isContinuation b = true ∧ (a = first → low ≤ b) ∧ (a = last → b ≤ high) := by
  refine ⟨?_, ?_, ?_⟩
  · have hle : (0x80 : UInt8) ≤ if a == first then low else 0x80 := by
      split_ifs
      exacts [hfirst, UInt8.le_refl _]
    have hge : (if a == last then high else 0xBF) ≤ (0xBF : UInt8) := by
      split_ifs
      exacts [hlast, UInt8.le_refl _]
    simpa [isContinuation] using And.intro (UInt8.le_trans hle hlow) (UInt8.le_trans hhigh hge)
  · rintro rfl
    rwa [if_pos (beq_self_eq_true a)] at hlow
  · rintro rfl
    rwa [if_pos (beq_self_eq_true a)] at hhigh

/-- A character that is read is encoded by the bytes that were read. -/
lemma encodeChar_of_scalar? {r : Bytes} {x : Char} {k : Nat} (h : scalar? a r = some (x, k)) :
    encodeChar x = a :: r.take k := by
  unfold scalar? at h
  split at h
  · rename_i ha
    obtain ⟨rfl, rfl⟩ := Prod.mk.inj (Option.some.inj h)
    exact encodeChar_one (UInt8.lt_iff_toNat_lt.1 ha)
  split at h
  · rename_i ha
    split at h
    · rw [Option.ite_none_right_eq_some] at h
      obtain ⟨hb, h⟩ := h
      obtain ⟨rfl, rfl⟩ := Prod.mk.inj (Option.some.inj h)
      exact encodeChar_two (by simpa [UInt8.le_iff_toNat_le] using ha) hb
    · cases h
  split at h
  · rename_i ha
    split at h
    · simp only [Option.ite_none_right_eq_some, Bool.and_eq_true, decide_eq_true_eq] at h
      obtain ⟨⟨⟨hlow, hhigh⟩, hc⟩, h⟩ := h
      obtain ⟨rfl, rfl⟩ := Prod.mk.inj (Option.some.inj h)
      obtain ⟨hb, hlow, hhigh⟩ := bounds_of_second (by decide) (by decide) hlow hhigh
      exact encodeChar_three (by simpa [UInt8.le_iff_toNat_le] using ha) hb hlow hhigh hc
    · cases h
  split at h
  · rename_i ha
    split at h
    · simp only [Option.ite_none_right_eq_some, Bool.and_eq_true, decide_eq_true_eq] at h
      obtain ⟨⟨⟨⟨hlow, hhigh⟩, hc⟩, hd⟩, h⟩ := h
      obtain ⟨rfl, rfl⟩ := Prod.mk.inj (Option.some.inj h)
      obtain ⟨hb, hlow, hhigh⟩ := bounds_of_second (by decide) (by decide) hlow hhigh
      exact encodeChar_four (by simpa [UInt8.le_iff_toNat_le] using ha) hb hlow hhigh hc hd
    · cases h
  · cases h

/-- The bytes of a character are its number or beyond ASCII. -/
lemma encodeChar_cases (c : Char) :
    (c.toNat < 128 ∧ encodeChar c = [c.toNat.toUInt8]) ∨ ∀ b ∈ encodeChar c, 128 ≤ b.toNat := by
  have hnat : c.toNat = c.val.toNat := rfl
  rw [encodeChar, String.utf8EncodeChar]
  split_ifs with h1 h2 h3
  · exact .inl ⟨by omega, rfl⟩
  all_goals
    refine .inr fun b hb => ?_
    simp only [List.mem_cons, List.not_mem_nil, or_false] at hb
    rcases hb with rfl | rfl | rfl | rfl <;> rw [UInt8.toNat_ofNat'] <;> omega

/-- A byte of ASCII is only in the encoding of its own character. -/
lemma toNat_eq_of_mem_encodeChar {b : UInt8} {c : Char} (hb : b ∈ encodeChar c)
    (hlt : b.toNat < 128) : c.toNat = b.toNat := by
  rcases encodeChar_cases c with ⟨hc, heq⟩ | hhigh
  · rw [heq, List.mem_singleton] at hb
    rw [hb, Nat.toUInt8, UInt8.toNat_ofNat']
    omega
  · exact absurd (hhigh b hb) (by omega)

/-! ### Texts -/

lemma exists_char {s : Bytes} (h : isValid s = true) {p : Piece} (hp : p ∈ decode s) :
    ∃ c, p = .char c := by
  have hpiece := List.all_eq_true.1 h p hp
  cases p with
  | char c => exact ⟨c, rfl⟩
  | stray b => cases hpiece

lemma exists_stray {s : Bytes} (h : isValid s = false) : ∃ b, .stray b ∈ decode s := by
  obtain ⟨p, hp, hpiece⟩ := List.all_eq_false.1 h
  cases p with
  | char c => exact absurd rfl hpiece
  | stray b => exact ⟨b, hp⟩

/-- Nothing is lost when a byte string is read as text. -/
lemma flatMap_bytes_decode (s : Bytes) : (decode s).flatMap Piece.bytes = s := by
  induction s using decode.induct with
  | case1 => rw [decode, List.flatMap_nil]
  | case2 a r x k h ih =>
    rw [decode]
    simp only [h, List.flatMap_cons, ih, Piece.bytes, encodeChar_of_scalar? h, List.cons_append,
      List.take_append_drop]
  | case3 a r h ih =>
    rw [decode]
    simp only [h, List.flatMap_cons, ih, Piece.bytes, List.singleton_append]

lemma sanitize_eq (s : Bytes) : sanitize s = (decode s).flatMap fun p => encodeChar p.toChar := by
  rw [sanitize, encode, chars, List.flatMap_map]

/-- A text without stray bytes is the encoding of its characters. -/
theorem sanitize_of_isValid {s : Bytes} (h : isValid s = true) : sanitize s = s := by
  conv_rhs => rw [← flatMap_bytes_decode s]
  rw [sanitize_eq]
  refine List.flatMap_congr fun p hp => ?_
  obtain ⟨c, rfl⟩ := exists_char h hp
  rfl

lemma length_bytes_stray (b : UInt8) :
    (Piece.stray b).bytes.length < (encodeChar (Piece.stray b).toChar).length := by
  rw [Piece.bytes, Piece.toChar, List.length_singleton]
  decide

lemma length_bytes_le (p : Piece) : p.bytes.length ≤ (encodeChar p.toChar).length := by
  cases p with
  | char c => exact le_rfl
  | stray b => exact (length_bytes_stray b).le

lemma length_sanitize (s : Bytes) :
    (sanitize s).length = ((decode s).map fun p => (encodeChar p.toChar).length).sum := by
  rw [sanitize_eq, List.length_flatMap]

lemma length_eq (s : Bytes) : s.length = ((decode s).map fun p => p.bytes.length).sum := by
  conv_lhs => rw [← flatMap_bytes_decode s]
  rw [List.length_flatMap]

lemma length_le_sanitize (s : Bytes) : s.length ≤ (sanitize s).length := by
  rw [length_eq, length_sanitize]
  exact List.sum_le_sum fun p _ => length_bytes_le p

/-- A text gets longer if it has stray bytes. -/
theorem length_lt_sanitize {s : Bytes} (h : isValid s = false) :
    s.length < (sanitize s).length := by
  obtain ⟨b, hb⟩ := exists_stray h
  rw [length_eq, length_sanitize]
  exact List.sum_lt_sum _ _ (fun p _ => length_bytes_le p) ⟨_, hb, length_bytes_stray b⟩

/-! ### Encoded characters -/

lemma scalar?_one (ha : a.toNat < 128) (t : Bytes) :
    scalar? a t = some (Char.ofNat a.toNat, 0) :=
  if_pos (UInt8.lt_iff_toNat_lt.2 ha)

/-- Every byte of ASCII is a character. -/
lemma high_of_stray {s : Bytes} (h : .stray b ∈ decode s) : 128 ≤ b.toNat := by
  induction s using decode.induct with
  | case1 => simp [decode] at h
  | case2 a r x k hscalar ih =>
    rw [decode] at h
    simp only [hscalar, List.mem_cons, reduceCtorEq, false_or] at h
    exact ih h
  | case3 a r hscalar ih =>
    rw [decode] at h
    simp only [hscalar, List.mem_cons, Piece.stray.injEq] at h
    rcases h with rfl | h
    · by_contra hlt
      rw [scalar?_one (Nat.lt_of_not_le hlt)] at hscalar
      cases hscalar
    · exact ih h

lemma scalar?_two (ha : 194 ≤ a.toNat ∧ a.toNat ≤ 223) (hb : isContinuation b = true)
    (t : Bytes) :
    scalar? a (b :: t) = some (Char.ofNat ((a.toNat - 0xC0) * 64 + tail6 b), 1) := by
  simp only [scalar?, UInt8.lt_iff_toNat_lt, UInt8.le_iff_toNat_le, Bool.and_eq_true,
    decide_eq_true_eq, UInt8.reduceToNat]
  rw [if_neg (by omega), if_pos ha, if_pos hb]

/-- The bounds for a second byte hold if they hold after the first bytes that they are for. -/
lemma second_mem_bounds (first last low high : UInt8) (hb : isContinuation b = true)
    (hlow : a.toNat = first.toNat → low.toNat ≤ b.toNat)
    (hhigh : a.toNat = last.toNat → b.toNat ≤ high.toNat) :
    (if a == first then low else 0x80) ≤ b ∧ b ≤ if a == last then high else 0xBF := by
  rw [UInt8.toNat_inj, ← UInt8.le_iff_toNat_le] at hlow hhigh
  have hbounds : (0x80 : UInt8) ≤ b ∧ b ≤ 0xBF := by simpa [isContinuation] using hb
  simp only [beq_iff_eq]
  split_ifs with h1 h2 h2
  exacts [⟨hlow h1, hhigh h2⟩, ⟨hlow h1, hbounds.2⟩, ⟨hbounds.1, hhigh h2⟩, hbounds]

lemma scalar?_three (ha : 224 ≤ a.toNat ∧ a.toNat ≤ 239) (hb : isContinuation b = true)
    (hlow : a.toNat = 0xE0 → 0xA0 ≤ b.toNat) (hhigh : a.toNat = 0xED → b.toNat ≤ 0x9F)
    (hc : isContinuation c = true) (t : Bytes) :
    scalar? a (b :: c :: t) =
      some (Char.ofNat ((a.toNat - 0xE0) * 4096 + tail6 b * 64 + tail6 c), 2) := by
  have hsecond := second_mem_bounds 0xE0 0xED 0xA0 0x9F hb hlow hhigh
  simp only [scalar?, UInt8.lt_iff_toNat_lt (b := 0x80), UInt8.le_iff_toNat_le (a := 0xC2),
    UInt8.le_iff_toNat_le (b := 0xDF), UInt8.le_iff_toNat_le (a := 0xE0),
    UInt8.le_iff_toNat_le (b := 0xEF), Bool.and_eq_true, decide_eq_true_eq, UInt8.reduceToNat]
  rw [if_neg (by omega), if_neg (by omega), if_pos ha, if_pos ⟨hsecond, hc⟩]

lemma scalar?_four (ha : 240 ≤ a.toNat ∧ a.toNat ≤ 244) (hb : isContinuation b = true)
    (hlow : a.toNat = 0xF0 → 0x90 ≤ b.toNat) (hhigh : a.toNat = 0xF4 → b.toNat ≤ 0x8F)
    (hc : isContinuation c = true) (hd : isContinuation d = true) (t : Bytes) :
    scalar? a (b :: c :: d :: t) =
      some (Char.ofNat ((a.toNat - 0xF0) * 262144 + tail6 b * 4096 + tail6 c * 64 + tail6 d),
        3) := by
  have hsecond := second_mem_bounds 0xF0 0xF4 0x90 0x8F hb hlow hhigh
  simp only [scalar?, UInt8.lt_iff_toNat_lt (b := 0x80), UInt8.le_iff_toNat_le (a := 0xC2),
    UInt8.le_iff_toNat_le (b := 0xDF), UInt8.le_iff_toNat_le (a := 0xE0),
    UInt8.le_iff_toNat_le (b := 0xEF), UInt8.le_iff_toNat_le (a := 0xF0),
    UInt8.le_iff_toNat_le (b := 0xF4), Bool.and_eq_true, decide_eq_true_eq, UInt8.reduceToNat]
  rw [if_neg (by omega), if_neg (by omega), if_neg (by omega), if_pos ha,
    if_pos ⟨⟨hsecond, hc⟩, hd⟩]

lemma isContinuation_ofNat (n : Nat) : isContinuation (UInt8.ofNat (n % 64 + 128)) = true := by
  rw [isContinuation_iff, UInt8.toNat_ofNat']
  omega

lemma tail6_ofNat (n : Nat) : tail6 (UInt8.ofNat (n % 64 + 128)) = n % 64 := by
  rw [tail6, UInt8.toNat_ofNat']
  omega

/-- A character is read from its bytes, whatever follows them. -/
lemma exists_encodeChar_eq_cons (c : Char) (t : Bytes) :
    ∃ a r, encodeChar c = a :: r ∧ scalar? a (r ++ t) = some (c, r.length) := by
  have hvalid : c.toNat.isValidChar := c.valid
  have hbytes := encodeChar_ofNat hvalid
  have hbound : c.toNat < 55296 ∨ 57343 < c.toNat ∧ c.toNat < 1114112 := hvalid
  rw [Char.ofNat_toNat] at hbytes
  obtain ⟨n, hn⟩ : ∃ n, c.toNat = n := ⟨_, rfl⟩
  have hc : Char.ofNat n = c := hn ▸ Char.ofNat_toNat c
  rw [hn] at hbytes hbound
  clear hn hvalid
  -- the four ways to write the number of the character
  split_ifs at hbytes with h1 h2 h3
  · have hfirst : (UInt8.ofNat n).toNat = n := by rw [UInt8.toNat_ofNat']; omega
    refine ⟨_, _, hbytes, ?_⟩
    rw [scalar?_one (by omega), hfirst, hc]
    rfl
  · have hfirst : (UInt8.ofNat (n / 64 % 32 + 192)).toNat = n / 64 % 32 + 192 := by
      rw [UInt8.toNat_ofNat']; omega
    refine ⟨_, _, hbytes, (scalar?_two (by omega) (isContinuation_ofNat n) t).trans ?_⟩
    rw [hfirst, tail6_ofNat, show (n / 64 % 32 + 192 - 0xC0) * 64 + n % 64 = n by omega, hc]
    rfl
  · have hfirst : (UInt8.ofNat (n / 4096 % 16 + 224)).toNat = n / 4096 % 16 + 224 := by
      rw [UInt8.toNat_ofNat']; omega
    have hsecond : (UInt8.ofNat (n / 64 % 64 + 128)).toNat = n / 64 % 64 + 128 := by
      rw [UInt8.toNat_ofNat']; omega
    refine ⟨_, _, hbytes, (scalar?_three (by omega) (isContinuation_ofNat _)
      (by omega) (by omega) (isContinuation_ofNat n) t).trans ?_⟩
    rw [hfirst, tail6_ofNat, tail6_ofNat, show (n / 4096 % 16 + 224 - 0xE0) * 4096 +
      n / 64 % 64 * 64 + n % 64 = n by omega, hc]
    rfl
  · have hfirst : (UInt8.ofNat (n / 262144 % 8 + 240)).toNat = n / 262144 % 8 + 240 := by
      rw [UInt8.toNat_ofNat']; omega
    have hsecond : (UInt8.ofNat (n / 4096 % 64 + 128)).toNat = n / 4096 % 64 + 128 := by
      rw [UInt8.toNat_ofNat']; omega
    refine ⟨_, _, hbytes, (scalar?_four (by omega) (isContinuation_ofNat _)
      (by omega) (by omega) (isContinuation_ofNat _) (isContinuation_ofNat n) t).trans ?_⟩
    rw [hfirst, tail6_ofNat, tail6_ofNat, tail6_ofNat, show (n / 262144 % 8 + 240 - 0xF0) * 262144 +
      n / 4096 % 64 * 4096 + n / 64 % 64 * 64 + n % 64 = n by omega, hc]
    rfl

lemma decode_encodeChar (c : Char) (t : Bytes) :
    decode (encodeChar c ++ t) = .char c :: decode t := by
  obtain ⟨a, r, hbytes, hscalar⟩ := exists_encodeChar_eq_cons c t
  rw [hbytes, List.cons_append, decode]
  simp only [hscalar, List.drop_left]

lemma encode_nil : encode [] = [] := rfl

lemma encode_cons (c : Char) (cs : List Char) : encode (c :: cs) = encodeChar c ++ encode cs :=
  List.flatMap_cons

lemma encode_append (cs ds : List Char) : encode (cs ++ ds) = encode cs ++ encode ds :=
  List.flatMap_append

/-- An encoded sequence of characters is read as that sequence. -/
theorem decode_encode (cs : List Char) : decode (encode cs) = cs.map .char := by
  induction cs with
  | nil => rw [encode_nil, decode, List.map_nil]
  | cons c cs ih => rw [encode_cons, decode_encodeChar, ih, List.map_cons]

theorem chars_encode (cs : List Char) : chars (encode cs) = cs := by
  rw [chars, decode_encode, List.map_map]
  exact List.map_id cs

lemma isValid_encode (cs : List Char) : isValid (encode cs) = true := by
  simp [isValid, decode_encode]

/-- A text of the sources is the encoding of its characters. -/
lemma sanitize_sanitize (s : Bytes) : sanitize (sanitize s) = sanitize s :=
  sanitize_of_isValid (isValid_encode _)

lemma ofString_eq_encode (s : String) : Bytes.ofString s = encode s.toList := by
  rw [Bytes.ofString, String.toUTF8_eq_toByteArray, ← String.utf8Encode_toList]
  simp only [List.utf8Encode, List.data_toByteArray]
  rfl

end Utf8

end ConsoleShell
