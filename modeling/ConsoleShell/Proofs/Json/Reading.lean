/-
JSON values read back.

What is written for a value whose numbers are numbers is a text of what the value is without stray
bytes in its strings, and so it is read back as that.  It has no control characters, so it stands
on one line.
-/
import ConsoleShell.Proofs.Json.Values
import ConsoleShell.Proofs.Number.Rendering
import ConsoleShell.Proofs.Text.Utf8

namespace ConsoleShell

/-! ### Visible bytes -/

namespace Bytes

/-- The text has no control characters. -/
def Visible (s : Bytes) : Prop := ∀ c ∈ s, 32 ≤ c.toNat

instance (s : Bytes) : Decidable s.Visible := inferInstanceAs (Decidable (∀ c ∈ s, _))

lemma visible_append {s t : Bytes} : (s ++ t).Visible ↔ s.Visible ∧ t.Visible :=
  List.forall_mem_append

lemma visible_cons {c : UInt8} {s : Bytes} : Visible (c :: s) ↔ 32 ≤ c.toNat ∧ s.Visible :=
  List.forall_mem_cons

lemma visible_nil : Visible [] := List.forall_mem_nil _

lemma visible_of_isDigit {s : Bytes} (h : ∀ c ∈ s, Ascii.isDigit c = true) : s.Visible :=
  fun c hc => le_trans (by norm_num) (Ascii.isDigit_iff.1 (h c hc)).1

end Bytes

/-! ### Hexadecimal digits -/

namespace Quoted

/-- The hexadecimal digit for a value. -/
def hexDigit (d : Nat) : UInt8 := (Nat.digitChar d).val.toUInt8

lemma hex_one {n : Nat} (h : n < 16) : hex 1 n = [hexDigit n] := by
  rw [hex, Bytes.ofNatBase, Nat.toDigits_of_lt_base h]
  rfl

/-- The last of several digits. -/
lemma hex_succ (width n : Nat) :
    hex (width + 2) n = hex (width + 1) (n / 16) ++ [hexDigit (n % 16)] := by
  rw [hex, hex, Bytes.ofNatBase, Bytes.ofNatBase]
  rcases lt_or_ge n 16 with hlt | hge
  · rw [Nat.div_eq_of_lt hlt, Nat.mod_eq_of_lt hlt, Nat.toDigits_of_lt_base hlt,
      Nat.toDigits_of_lt_base (by norm_num)]
    simp [Bytes.padStart, Bytes.replicate, hexDigit, List.replicate_succ']
    rfl
  · rw [Nat.toDigits_of_base_le (by norm_num) hge]
    simp [Bytes.padStart, hexDigit]

lemma hex_four {n : Nat} (h : n < 65536) :
    hex 4 n = [hexDigit (n / 4096), hexDigit (n / 256 % 16), hexDigit (n / 16 % 16),
      hexDigit (n % 16)] := by
  rw [hex_succ, hex_succ, hex_succ, hex_one (by omega)]
  simp [Nat.div_div_eq_div_mul]

lemma digitValue?_hexDigit {d : Nat} (h : d < 16) : Ascii.digitValue? (hexDigit d) = some d := by
  interval_cases d <;> rfl

lemma visible_hexDigit {d : Nat} (h : d < 16) : 32 ≤ (hexDigit d).toNat := by
  interval_cases d <;> decide

end Quoted

namespace Json

/-! ### Strings -/

/-- The bytes of a character are plain unless it is escaped. -/
lemma isPlain_encodeChar {c : Char} (hlow : 32 ≤ c.toNat) (hquote : c ≠ '"')
    (hbackslash : c ≠ '\\') : ∀ b ∈ Utf8.encodeChar c, IsPlain b := by
  intro b hb
  have hnat : b.toNat < 128 → c.toNat = b.toNat := Utf8.toNat_eq_of_mem_encodeChar hb
  refine ⟨?_, ?_, ?_⟩
  · by_contra hcontrol
    exact hcontrol (hnat (by omega) ▸ hlow)
  · rintro rfl
    exact hquote (Char.toNat_inj.1 (hnat (by decide)))
  · rintro rfl
    exact hbackslash (Char.toNat_inj.1 (hnat (by decide)))

/-- What may stand for a character in a string. -/
inductive Escaped (c : Char) : Bytes → Prop
  | letter {l x : UInt8} (hl : escapeLetter? l = some x) (hx : Utf8.encodeChar c = [x]) :
    Escaped c [Ascii.backslash, l]
  | unit (h : c.toNat < 0xD800) : Escaped c (unicodeEscape c.toNat)
  | plain (h : ∀ b ∈ Utf8.encodeChar c, IsPlain b) : Escaped c (Utf8.encodeChar c)

lemma escaped_piece (style : Style) (p : Utf8.Piece) :
    Escaped p.toChar (escapePiece style p) := by
  cases p with
  | stray b =>
    change Escaped Utf8.replacement (Utf8.encodeChar Utf8.replacement)
    exact .plain (isPlain_encodeChar (by decide) (by decide) (by decide))
  | char c =>
    have hchar {n : Nat} {d : Char} (h : (c.toNat == n) = true) (hd : d.toNat = n) : c = d :=
      Char.toNat_inj.1 ((beq_iff_eq.1 h).trans hd.symm)
    rw [escapePiece]
    dsimp only [Utf8.Piece.toChar]
    split_ifs with h1 h2 h3 h4 h5 h6 h7 h8
    · rcases (by simpa using h1 : c = '"' ∨ c = '\\') with rfl | rfl <;> exact .letter rfl rfl
    · obtain rfl : c = '\n' := hchar h2 rfl
      exact .letter rfl rfl
    · obtain rfl : c = '\r' := hchar h3 rfl
      exact .letter rfl rfl
    · obtain rfl : c = '\t' := hchar h4 rfl
      exact .letter rfl rfl
    · obtain rfl : c = '\x08' := hchar (Bool.and_eq_true_iff.1 h5).1 rfl
      exact .letter rfl rfl
    · obtain rfl : c = '\x0c' := hchar (Bool.and_eq_true_iff.1 h6).1 rfl
      exact .letter rfl rfl
    · refine .unit ?_
      simp only [Bool.or_eq_true, decide_eq_true_eq, beq_iff_eq] at h7
      omega
    · refine .unit ?_
      simp only [Bool.and_eq_true, Bool.or_eq_true, beq_iff_eq] at h8
      rcases h8.2 with (rfl | rfl) | rfl <;> decide
    · simp only [Bool.or_eq_true, decide_eq_true_eq, beq_iff_eq, not_or] at h1 h7
      exact .plain (isPlain_encodeChar (by omega) h1.1 h1.2)

lemma hex4?_hexDigit {n : Nat} (hn : n < 65536) :
    hex4? (Quoted.hexDigit (n / 4096)) (Quoted.hexDigit (n / 256 % 16))
      (Quoted.hexDigit (n / 16 % 16)) (Quoted.hexDigit (n % 16)) = some n := by
  have hdigit {d : Nat} (hd : d < 16) :
      (Ascii.digitValue? (Quoted.hexDigit d)).filter (· < 16) = some d := by
    rw [Quoted.digitValue?_hexDigit hd]
    simp [hd]
  rw [hex4?]
  dsimp only
  rw [hdigit (by omega), hdigit (by omega), hdigit (by omega), hdigit (by omega)]
  simp only [Option.bind_eq_bind, Option.bind_some, pure, Option.some.injEq]
  omega

lemma StringBody.plain_append {w t u : Bytes} (hw : ∀ c ∈ w, IsPlain c) (h : StringBody t u) :
    StringBody (w ++ t) (w ++ u) := by
  induction w with
  | nil => exact h
  | cons c w ih =>
    obtain ⟨hc, hw⟩ := List.forall_mem_cons.1 hw
    exact .plain hc (ih hw)

/-- What stands for a character stands for it in front of any string. -/
lemma Escaped.stringBody {c : Char} {w t u : Bytes} (hw : Escaped c w) (h : StringBody t u) :
    StringBody (w ++ t) (Utf8.encodeChar c ++ u) := by
  cases hw with
  | letter hl hx =>
    rw [hx]
    exact .letter hl h
  | unit hc =>
    have hunit : StringBody (unicodeEscape c.toNat ++ t)
        (Utf8.encodeChar (Char.ofNat c.toNat) ++ u) := by
      rw [unicodeEscape, Quoted.hex_four (by omega)]
      exact .unit (hex4?_hexDigit (by omega)) (fun hhalf => absurd hhalf.1 (by omega)) h
    rwa [Char.ofNat_toNat] at hunit
  | plain hplain => exact h.plain_append hplain

lemma Escaped.visible {c : Char} {t : Bytes} (h : Escaped c t) : t.Visible := by
  cases h with
  | @letter l x hl hx =>
    have hlow : 32 ≤ l.toNat := by
      unfold escapeLetter? at hl
      split at hl <;> first | decide | cases hl
    exact Bytes.visible_cons.2 ⟨by decide, Bytes.visible_cons.2 ⟨hlow, Bytes.visible_nil⟩⟩
  | unit h =>
    have hdigit {d : Nat} (hd : d < 16) := Quoted.visible_hexDigit hd
    rw [unicodeEscape, Quoted.hex_four (by omega)]
    simp only [Bytes.visible_cons]
    exact ⟨by decide, by decide, hdigit (by omega), hdigit (by omega), hdigit (by omega),
      hdigit (by omega), Bytes.visible_nil⟩
  | plain h => exact fun b hb => (h b hb).1

lemma stringBody_pieces (style : Style) (ps : List Utf8.Piece) :
    StringBody (ps.flatMap (escapePiece style)) (Utf8.encode (ps.map Utf8.Piece.toChar)) := by
  induction ps with
  | nil => exact .nil
  | cons p ps ih =>
    rw [List.flatMap_cons, List.map_cons]
    exact (escaped_piece style p).stringBody ih

/-- A string in quotes is one without its stray bytes. -/
lemma stringText_quote (style : Style) (t : Bytes) :
    StringText (Utf8.sanitize (Utf8.sanitize t)) (quote style t) :=
  ⟨_, _, rfl, stringBody_pieces style (Utf8.decode t), rfl⟩

lemma visible_quote (style : Style) (t : Bytes) : (quote style t).Visible := by
  have hpieces : Bytes.Visible ((Utf8.decode t).flatMap (escapePiece style)) := by
    intro c hc
    obtain ⟨p, -, hp⟩ := List.mem_flatMap.1 hc
    exact (escaped_piece style p).visible c hp
  rw [quote, Bytes.visible_append, Bytes.visible_cons]
  exact ⟨⟨by decide, hpieces⟩, Bytes.visible_cons.2 ⟨by decide, Bytes.visible_nil⟩⟩

/-! ### Numbers -/

variable {t : NumberText}

/-- The digits and the signs that a number is written with make up a number. -/
lemma isNumber_bytes (ht : t.Valid) : IsNumber t.bytes := by
  refine ⟨t.signBytes, t.whole, t.fractionBytes, t.exponentBytes, rfl, ?_, ?_, ?_, ?_⟩
  · rw [NumberText.signBytes]
    split_ifs
    · exact .inr rfl
    · exact .inl rfl
  · by_cases hzero : t.whole.head? = some 48
    · exact .inl (ht.whole_zero hzero)
    · exact .inr ⟨⟨ht.whole_ne, ht.whole_digits⟩, hzero⟩
  · rw [NumberText.fractionBytes]
    split_ifs with hplaces
    · exact .inl rfl
    · exact .inr ⟨t.places, rfl, by simpa using hplaces, ht.places_digits⟩
  · rw [NumberText.exponentBytes]
    cases hp : t.exponent with
    | none => exact .inl rfl
    | some p =>
      refine .inr ⟨101, [if p.1 then Ascii.minus else Ascii.plus], p.2, rfl, .inl rfl, ?_,
        ht.exponent_ne p hp, ht.exponent_digits p hp⟩
      split_ifs
      · exact .inr (.inr rfl)
      · exact .inr (.inl rfl)

lemma visible_numberText (ht : t.Valid) : t.bytes.Visible := by
  have hsign : t.signBytes.Visible := by
    rw [NumberText.signBytes]
    split_ifs
    · exact Bytes.visible_cons.2 ⟨by decide, Bytes.visible_nil⟩
    · exact Bytes.visible_nil
  have hfraction : t.fractionBytes.Visible := by
    rw [NumberText.fractionBytes]
    split_ifs
    · exact Bytes.visible_nil
    · exact Bytes.visible_cons.2 ⟨by decide, Bytes.visible_of_isDigit ht.places_digits⟩
  have hexponent : t.exponentBytes.Visible := by
    rw [NumberText.exponentBytes]
    cases hp : t.exponent with
    | none => exact Bytes.visible_nil
    | some p =>
      have hmark : 32 ≤ (if p.1 then Ascii.minus else Ascii.plus).toNat := by
        split_ifs <;> decide
      exact Bytes.visible_cons.2 ⟨by decide, Bytes.visible_cons.2
        ⟨hmark, Bytes.visible_of_isDigit (ht.exponent_digits p hp)⟩⟩
  simp only [NumberText.bytes, Bytes.visible_append]
  exact ⟨⟨⟨hsign, Bytes.visible_of_isDigit ht.whole_digits⟩, hfraction⟩, hexponent⟩

/-! ### Values -/

mutual

/-- Every number in a value is written as one. -/
def WellFormed : Json → Prop
  | .number t => ∃ n : NumberText, n.Valid ∧ t = n.bytes
  | .array xs => ItemsWellFormed xs
  | .object fs => FieldsWellFormed fs
  | _ => True

/-- Every number in a list is written as one. -/
def ItemsWellFormed : List Json → Prop
  | [] => True
  | x :: xs => x.WellFormed ∧ ItemsWellFormed xs

/-- Every number in the fields of an object is written as one. -/
def FieldsWellFormed : List (Bytes × Json) → Prop
  | [] => True
  | (_, v) :: fs => v.WellFormed ∧ FieldsWellFormed fs

end

lemma itemsWellFormed_of {xs : List Json} (h : ∀ x ∈ xs, x.WellFormed) : ItemsWellFormed xs := by
  induction xs with
  | nil => trivial
  | cons x xs ih =>
    obtain ⟨hx, hxs⟩ := List.forall_mem_cons.1 h
    exact ⟨hx, ih hxs⟩

lemma wellFormed_ofInt (n : Int) : (ofInt n).WellFormed := by
  cases n with
  | ofNat n =>
    refine ⟨_, NumberText.valid_ofNat false n, ?_⟩
    simp [NumberText.bytes, NumberText.signBytes, NumberText.fractionBytes,
      NumberText.exponentBytes, Bytes.ofInt]
  | negSucc n =>
    refine ⟨_, NumberText.valid_ofNat true (n + 1), ?_⟩
    simp [NumberText.bytes, NumberText.signBytes, NumberText.fractionBytes,
      NumberText.exponentBytes, Bytes.ofInt]

lemma wellFormed_ofNat (n : Nat) : (ofNat n).WellFormed := wellFormed_ofInt n

mutual

/-- What is read back of a value: the replacement character stands for stray bytes. -/
def cleaned : Json → Json
  | .null => .null
  | .bool b => .bool b
  | .number t => .number t
  | .string s => .string (Utf8.sanitize (Utf8.sanitize s))
  | .array xs => .array (itemsCleaned xs)
  | .object fs => .object (fieldsCleaned fs)

/-- What is read back of the items of a list. -/
def itemsCleaned : List Json → List Json
  | [] => []
  | x :: xs => x.cleaned :: itemsCleaned xs

/-- What is read back of the fields of an object. -/
def fieldsCleaned : List (Bytes × Json) → List (Bytes × Json)
  | [] => []
  | (k, v) :: fs => (Utf8.sanitize (Utf8.sanitize k), v.cleaned) :: fieldsCleaned fs

end

lemma itemsCleaned_eq (xs : List Json) : itemsCleaned xs = xs.map cleaned := by
  induction xs with
  | nil => rfl
  | cons x xs ih => rw [itemsCleaned, ih, List.map_cons]

mutual

/-- A value stands on one line. -/
lemma visible_render (style : Style) : ∀ v : Json, v.WellFormed → (v.render style).Visible
  | .null, _ => by rw [render]; decide +kernel
  | .bool b, _ => by rw [render]; cases b <;> decide +kernel
  | .number t, ⟨n, hn, ht⟩ => by rw [render, ht]; exact visible_numberText hn
  | .string t, _ => by rw [render]; exact visible_quote style t
  | .array xs, h => by
    have hitems := visible_renderItems style xs h
    rw [render, Bytes.visible_append, Bytes.visible_append]
    exact ⟨⟨by decide +kernel, hitems⟩, by decide +kernel⟩
  | .object fs, h => by
    have hfields := visible_renderFields style fs h
    rw [render, Bytes.visible_append, Bytes.visible_cons]
    exact ⟨⟨by decide, hfields⟩, by decide +kernel⟩

lemma visible_renderItems (style : Style) :
    ∀ xs : List Json, ItemsWellFormed xs → (renderItems style xs).Visible
  | [], _ => Bytes.visible_nil
  | [x], h => by rw [renderItems]; exact visible_render style x h.1
  | x :: y :: xs, h => by
    have hx := visible_render style x h.1
    have hxs := visible_renderItems style (y :: xs) h.2
    rw [renderItems, Bytes.visible_append, Bytes.visible_append]
    exact ⟨⟨hx, by decide +kernel⟩, hxs⟩

lemma visible_renderFields (style : Style) :
    ∀ fs : List (Bytes × Json), FieldsWellFormed fs → (renderFields style fs).Visible
  | [], _ => Bytes.visible_nil
  | [(k, v)], h => by
    have hv := visible_render style v h.1
    rw [renderFields, Bytes.visible_append, Bytes.visible_append]
    exact ⟨⟨visible_quote style k, by decide +kernel⟩, hv⟩
  | (k, v) :: f :: fs, h => by
    have hv := visible_render style v h.1
    have hfs := visible_renderFields style (f :: fs) h.2
    simp only [renderFields, Bytes.visible_append]
    exact ⟨⟨⟨⟨visible_quote style k, by decide +kernel⟩, hv⟩,
      by decide +kernel⟩, hfs⟩

end

lemma itemsDepth_le {xs : List Json} {n : Nat} (h : ∀ x ∈ xs, x.depth ≤ n) :
    itemsDepth xs ≤ n := by
  induction xs with
  | nil => exact Nat.zero_le n
  | cons x xs ih =>
    obtain ⟨hx, hxs⟩ := List.forall_mem_cons.1 h
    exact max_le hx (ih hxs)

mutual

lemma depth_cleaned : ∀ v : Json, v.cleaned.depth = v.depth
  | .null | .bool _ | .number _ | .string _ => rfl
  | .array xs => by rw [cleaned, depth, depth, itemsDepth_cleaned xs]
  | .object fs => by rw [cleaned, depth, depth, fieldsDepth_cleaned fs]

lemma itemsDepth_cleaned : ∀ xs : List Json, itemsDepth (itemsCleaned xs) = itemsDepth xs
  | [] => rfl
  | x :: xs => by rw [itemsCleaned, itemsDepth, itemsDepth, depth_cleaned x, itemsDepth_cleaned xs]

lemma fieldsDepth_cleaned :
    ∀ fs : List (Bytes × Json), fieldsDepth (fieldsCleaned fs) = fieldsDepth fs
  | [] => rfl
  | (k, v) :: fs => by
    rw [fieldsCleaned, fieldsDepth, fieldsDepth, depth_cleaned v, fieldsDepth_cleaned fs]

end

mutual

/-- What is written for a value is a text of it. -/
lemma hasText_render (style : Style) : ∀ v : Json, v.WellFormed →
    v.cleaned.HasText (v.render style)
  | .null, _ => rfl
  | .bool true, _ => rfl
  | .bool false, _ => rfl
  | .number _, ⟨_, hn, ht⟩ => ⟨rfl, ht ▸ isNumber_bytes hn⟩
  | .string t, _ => stringText_quote style t
  | .array xs, h => ⟨renderItems style xs, rfl, itemsText_render style xs h⟩
  | .object fs, h => ⟨renderFields style fs, rfl, fieldsText_render style fs h⟩

lemma itemsText_render (style : Style) : ∀ xs : List Json, ItemsWellFormed xs →
    ItemsText (itemsCleaned xs) (renderItems style xs)
  | [], _ => blank_nil
  | [x], h => spaced_of (hasText_render style x h.1)
  | x :: y :: xs, h =>
    ⟨x.render style, renderItems style (y :: xs), by rw [renderItems]; simp; rfl,
      spaced_of (hasText_render style x h.1), itemsText_render style (y :: xs) h.2⟩

lemma fieldsText_render (style : Style) : ∀ fs : List (Bytes × Json), FieldsWellFormed fs →
    FieldsText (fieldsCleaned fs) (renderFields style fs)
  | [], _ => blank_nil
  | [(k, v)], h =>
    ⟨quote style k, v.render style, by rw [renderFields]; simp; rfl,
      spaced_of (stringText_quote style k), spaced_of (hasText_render style v h.1)⟩
  | (k, v) :: f :: fs, h =>
    ⟨quote style k ++ ":" ++ v.render style, renderFields style (f :: fs),
      by rw [renderFields]; simp; rfl,
      ⟨quote style k, v.render style, by simp; rfl, spaced_of (stringText_quote style k),
        spaced_of (hasText_render style v h.1)⟩,
      fieldsText_render style (f :: fs) h.2⟩

end

/-- A value that is not nested too deeply is read back from its text. -/
theorem parse?_render (style : Style) {v : Json} (hv : v.WellFormed) (hdepth : v.depth ≤ maxDepth) :
    parse? (v.render style) = some v.cleaned := by
  have hnext : next? (v.render style) = some (v.cleaned, []) := by
    have hread := (hasText_render style v hv).next? (v.depth_cleaned ▸ hdepth) blank_nil (s := [])
      fun _ _ => stops_nil
    simpa using hread
  rw [parse?, hnext]
  rfl

end Json

end ConsoleShell
