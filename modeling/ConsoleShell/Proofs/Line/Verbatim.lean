/-
Arguments that are written as they are.

A text of words and separators is split into its words.  Whatever is written behind it, after a
separator, comes after them, and is read as one argument that is the text itself exactly if that
text is not empty and has no byte with a meaning: every such byte is dropped or cuts the text, so
that what is left is not the text any more.
-/
import ConsoleShell.Proofs.Line.LastWord

namespace ConsoleShell

namespace Line

variable {s front a tail : Bytes} {ts us : List Symbol} {e : Ending}

/-! ### Words and separators -/

/-- There are only words and separators: no quotes, backslashes and operators. -/
def IsBare (s : Bytes) : Prop := ∀ c ∈ s, c ∉ special ∨ c ∈ separators

/-- The text is a word as it stands. -/
def IsVerbatim (a : Bytes) : Prop := a ≠ [] ∧ ∀ c ∈ a, c ∉ special

instance (a : Bytes) : Decidable (IsVerbatim a) :=
  decidable_of_iff ((!a.isEmpty && a.all fun c => c ∉ special) = true) <| by
    simp [IsVerbatim]

/-- What a byte of a bare text stands for. -/
def bareSymbol (c : UInt8) : Symbol := if c ∈ separators then .separator else .part [c]

lemma IsBare.notMem_greater (hs : IsBare s) : Ascii.greater ∉ s := by
  intro hmem
  rcases hs _ hmem with h | h
  · exact h (by decide)
  · exact absurd h (by decide)

lemma lexed_bare (hs : IsBare s) : Lexed s (s.map bareSymbol) .complete := by
  induction s with
  | nil => exact .nil
  | cons c s ih =>
    obtain ⟨hc, hs⟩ := List.forall_mem_cons.1 hs
    rw [List.map_cons, bareSymbol]
    split
    · next hseparator => exact .separator hseparator (ih hs)
    · next hword =>
      refine .literal (hc.resolve_right hword) (fun _ hhead => ?_) (ih hs)
      exact IsBare.notMem_greater hs (List.mem_of_mem_head? hhead)

/-- Items without operators are words. -/
lemma exists_words {is : List Item} (h : ∀ op, .operator op ∉ is) :
    ∃ ws : List Bytes, is = ws.map .word := by
  induction is with
  | nil => exact ⟨[], rfl⟩
  | cons i is ih =>
    obtain ⟨ws, hws⟩ := ih fun op hop => h op (List.mem_cons_of_mem _ hop)
    cases i with
    | operator op => exact absurd List.mem_cons_self (h op)
    | word w => exact ⟨w :: ws, by rw [hws, List.map_cons]⟩

/-- A bare text has words and no operators. -/
lemma exists_words_bare (s : Bytes) :
    ∃ ws : List Bytes, items (s.map bareSymbol) = ws.map .word := by
  refine exists_words fun op hop => ?_
  obtain ⟨c, -, hc⟩ := List.mem_map.1 (operator_mem_of_items hop)
  rw [bareSymbol] at hc
  split at hc <;> cases hc

/-- Behind a bare text that ends in a separator a line is cut as it is by itself. -/
lemma lexed_behind_bare (hfront : IsBare front)
    (hends : ∀ c, front.getLast? = some c → c ∈ separators) (hs : Lexed s us e) :
    Lexed (front ++ s) (front.map bareSymbol ++ us) e ∧
      items (front.map bareSymbol ++ us) = items (front.map bareSymbol) ++ items us := by
  rcases List.eq_nil_or_concat' front with rfl | ⟨t, c, rfl⟩
  · exact ⟨hs, rfl⟩
  · have hc : c ∈ separators := hends c (by simp)
    have ht : IsBare t := fun d hd => hfront d (List.mem_append_left _ hd)
    -- the last separator keeps what is behind it from continuing a word
    have hsymbol : bareSymbol c = .separator := if_pos hc
    have hnext : (c :: s).head? ≠ some Ascii.greater := by
      rintro hhead
      obtain rfl : c = Ascii.greater := Option.some.inj hhead
      exact absurd hc (by decide)
    have hlexed := (lexed_bare ht).append_text (.separator hc hs) hnext
    have hitems (us : List Symbol) : items (t.map bareSymbol ++ .separator :: us) =
        items (t.map bareSymbol) ++ items us := (items_append _ (by simp)).1
    rw [List.map_append, List.map_singleton, hsymbol]
    refine ⟨by simpa using hlexed, ?_⟩
    rw [List.append_assoc, List.singleton_append, hitems, hitems]
    simp [items]

/-! ### Arguments behind words -/

/-- Words in front are arguments, whatever comes after them. -/
lemma argumentsOf_words_append (ws : List Bytes) (is : List Item) :
    argumentsOf (ws.map .word ++ is) = ws ++ argumentsOf is := by
  -- the item before decides only if it is an operator
  have hbefore {before : Option Item} (h : ∀ op, before ≠ some (.operator op)) (i : Item) :
      argumentOf (before, i) = argumentOf (none, i) := by
    rcases before with _ | (w | op)
    · rfl
    · cases i <;> rfl
    · exact absurd rfl (h op)
  have hall {before : Option Item} (h : ∀ op, before ≠ some (.operator op)) :
      (withPrevious before (ws.map .word ++ is)).filterMap argumentOf = ws ++ argumentsOf is := by
    induction ws generalizing before with
    | nil =>
      cases is with
      | nil => rfl
      | cons i is =>
        rw [List.map_nil, List.nil_append, List.nil_append, argumentsOf, withPrevious, withPrevious,
          List.filterMap_cons, List.filterMap_cons, hbefore h]
    | cons w ws ih =>
      have hword : argumentOf (before, .word w) = some w := hbefore h (.word w)
      rw [List.map_cons, List.cons_append, withPrevious, List.filterMap_cons, hword,
        @ih (some (.word w)) (by simp)]
      rfl
  exact hall (by simp)

/-! ### What is lost of a text -/

/-- The bytes that a symbol adds to its word. -/
def Symbol.text : Symbol → Bytes
  | .part text => text
  | _ => []

/-- The text of an item, none for an operator. -/
def Item.text : Item → Bytes
  | .word text => text
  | .operator _ => []

/-- The words have the bytes of the parts, in order. -/
lemma flatMap_text_items (ts : List Symbol) :
    (items ts).flatMap Item.text = ts.flatMap Symbol.text ∧
      ∀ text, (items (.part text :: ts)).flatMap Item.text = text ++ ts.flatMap Symbol.text := by
  -- a part is joined to the part behind it, so the text of a word is known only with its end
  induction ts with
  | nil => exact ⟨rfl, fun text => rfl⟩
  | cons t ts ih =>
    cases t with
    | separator =>
      refine ⟨ih.1, fun text => ?_⟩
      rw [items_part_of_head (by simp), List.flatMap_cons]
      exact congrArg (text ++ ·) ih.1
    | operator op =>
      have hfirst : (items (.operator op :: ts)).flatMap Item.text = ts.flatMap Symbol.text := ih.1
      refine ⟨hfirst, fun text => ?_⟩
      rw [items_part_of_head (by simp), List.flatMap_cons, hfirst]
      rfl
    | part text' =>
      refine ⟨ih.2 text', fun text => ?_⟩
      rw [items_part_part, ih.2 (text ++ text'), List.append_assoc]
      rfl

lemma map_snd_withPrevious (before : Option Item) (is : List Item) :
    (withPrevious before is).map Prod.snd = is := by
  induction is generalizing before with
  | nil => rfl
  | cons i is ih => rw [withPrevious, List.map_cons, ih]

/-- An argument is a word of the line. -/
lemma word_mem_of_mem_argumentsOf {is : List Item} {w : Bytes} (h : w ∈ argumentsOf is) :
    .word w ∈ is := by
  obtain ⟨⟨before, i⟩, hmem, hword⟩ := List.mem_filterMap.1 h
  obtain rfl : i = .word w := by
    rcases before with _ | (v | op) <;> cases i <;> simp_all [argumentOf]
  rw [← map_snd_withPrevious none is]
  exact List.mem_map_of_mem hmem

/-- An argument is a part of what is left of the line. -/
lemma sublist_of_mem_argumentsOf {w : Bytes} (h : w ∈ argumentsOf (items ts)) :
    w.Sublist (ts.flatMap Symbol.text) := by
  rw [← (flatMap_text_items ts).1, List.flatMap_def]
  have hword : Item.word w ∈ items ts := word_mem_of_mem_argumentsOf h
  exact List.sublist_flatten_of_mem (List.mem_map.2 ⟨_, hword, rfl⟩)

/-- What is kept of a text has no byte more often than the text.  Either some byte that is no
separator is lost, or the text is bare and nothing but its separators is lost. -/
def Loses (s kept : Bytes) : Prop :=
  (∀ b, kept.count b ≤ s.count b) ∧
    ((∃ b, b ∉ separators ∧ kept.count b < s.count b) ∨
      IsBare s ∧ kept = s.filter fun b => b ∉ separators)

lemma Loses.append {s t kept more : Bytes} (h : Loses s kept) (h' : Loses t more) :
    Loses (s ++ t) (kept ++ more) := by
  obtain ⟨hle, hcases⟩ := h
  obtain ⟨hle', hcases'⟩ := h'
  refine ⟨fun b => ?_, ?_⟩
  · rw [List.count_append, List.count_append]
    exact Nat.add_le_add (hle b) (hle' b)
  · rcases hcases with ⟨b, hb, hlt⟩ | ⟨hbare, hkept⟩
    · refine .inl ⟨b, hb, ?_⟩
      rw [List.count_append, List.count_append]
      exact Nat.add_lt_add_of_lt_of_le hlt (hle' b)
    · rcases hcases' with ⟨b, hb, hlt⟩ | ⟨hbare', hkept'⟩
      · refine .inl ⟨b, hb, ?_⟩
        rw [List.count_append, List.count_append]
        exact Nat.add_lt_add_of_le_of_lt (hle b) hlt
      · refine .inr ⟨List.forall_mem_append.2 ⟨hbare, hbare'⟩, ?_⟩
        rw [hkept, hkept', List.filter_append]

/-- A byte that is no separator is dropped. -/
lemma loses_of_sublist {c : UInt8} {s kept : Bytes} (hc : c ∉ separators)
    (h : (c :: kept).Sublist s) : Loses s kept := by
  have hcount (b : UInt8) : (c :: kept).count b ≤ s.count b := h.count_le b
  refine ⟨fun b => ?_, .inl ⟨c, hc, ?_⟩⟩
  · have hb := hcount b
    rw [List.count_cons] at hb
    omega
  · have hb := hcount c
    rw [List.count_cons_self] at hb
    omega

lemma loses_nil : Loses [] [] := ⟨fun _ => le_rfl, .inr ⟨by simp [IsBare], rfl⟩⟩

/-- Cutting a text into symbols loses separators or some other byte. -/
lemma Lexed.loses (h : Lexed s ts e) : Loses s (ts.flatMap Symbol.text) := by
  -- every symbol drops a byte that is no separator, but for separators and literal bytes
  have hless : Ascii.less ∉ separators := by decide
  have hgreater : Ascii.greater ∉ separators := by decide
  have hbackslash : Ascii.backslash ∉ separators := by decide
  have hquote : ∀ q ∈ quotes, q ∉ separators :=
    List.forall_mem_cons.2 ⟨by decide, List.forall_mem_singleton.2 (by decide)⟩
  induction h with
  | nil => exact loses_nil
  | dangling => exact loses_of_sublist hbackslash (.refl _)
  | escaped hs ih => exact (loses_of_sublist hbackslash (.refl _)).append ih
  | @quoted q text s ts e hq htext hs ih =>
    have hpiece : Loses (q :: (text ++ [q])) text :=
      loses_of_sublist (hquote q hq) ((List.sublist_append_left text [q]).cons_cons q)
    have hall := hpiece.append ih
    simpa [Symbol.text] using hall
  | @unclosed q text hq htext =>
    have hpiece : Loses (q :: text) text := loses_of_sublist (hquote q hq) (.refl _)
    simpa [Symbol.text] using hpiece
  | @separator c s ts e hc hs ih =>
    have hpiece : Loses [c] [] := by
      refine ⟨by simp, .inr ⟨by simp [IsBare, hc], ?_⟩⟩
      simp [hc]
    exact hpiece.append ih
  | input hs ih => exact (loses_of_sublist hless (.refl _)).append ih
  | write hnext hs ih => exact (loses_of_sublist hgreater (.refl _)).append ih
  | append hs ih => exact (loses_of_sublist hgreater (List.sublist_append_left _ [_])).append ih
  | @writeTo d s ts e hd hnext hs ih =>
    have hpiece : Loses [d, Ascii.greater] [] :=
      loses_of_sublist hgreater (List.sublist_append_right [d] _)
    exact hpiece.append ih
  | @appendTo d s ts e hd hs ih =>
    have hpiece : Loses [d, Ascii.greater, Ascii.greater] [] :=
      loses_of_sublist hgreater (List.sublist_append_right [d, Ascii.greater] _)
    exact hpiece.append ih
  | @literal c s ts e hc hnext hs ih =>
    have hseparator : c ∉ separators := fun hmem => hc (by simp [special, hmem])
    have hpiece : Loses [c] [c] := by
      refine ⟨by simp, .inr ⟨by simp [IsBare, hc], ?_⟩⟩
      simp [hseparator]
    exact hpiece.append ih

/-! ### Arguments that are the text itself -/

/-- A text that is read as itself, apart from separators behind it, has no special bytes. -/
lemma notMem_special_of_argument (htail : ∀ c ∈ tail, c ∈ separators) (h : Lexed (a ++ tail) us e)
    (ha : a ∈ argumentsOf (items us)) : ∀ c ∈ a, c ∉ special := by
  have hsublist := sublist_of_mem_argumentsOf ha
  obtain ⟨-, ⟨b, hb, hlost⟩ | ⟨hbare, hkept⟩⟩ := h.loses
  · -- the lost byte would have to be missing from the argument
    have hcount := hsublist.count_le b
    rw [List.count_append, List.count_eq_zero.2 (mt (htail b) hb)] at hlost
    omega
  · have htail' : tail.filter (fun b => b ∉ separators) = [] := by
      rw [List.filter_eq_nil_iff]
      intro c hc
      simpa using htail c hc
    rw [hkept, List.filter_append, htail', List.append_nil] at hsublist
    have hall : a.filter (fun b => b ∉ separators) = a :=
      List.filter_sublist.eq_of_length_le hsublist.length_le
    intro c hc
    have hseparator : c ∉ separators := by simpa using List.filter_eq_self.1 hall c hc
    exact (hbare c (List.mem_append_left _ hc)).resolve_right hseparator

/-- A text without special bytes is one word, apart from separators behind it. -/
lemma exists_lexed_verbatim (ha : IsVerbatim a) (htail : ∀ c ∈ tail, c ∈ separators) :
    ∃ us, Lexed (a ++ tail) us .complete ∧ items us = [.word a] := by
  have hgap := lexed_separators htail .nil
  rw [List.append_nil, List.append_nil] at hgap
  have hnext : tail.head? ≠ some Ascii.greater := by
    intro hhead
    exact absurd (htail _ (List.mem_of_mem_head? hhead)) (by decide)
  refine ⟨_, lexed_literals ha.2 hnext hgap, ?_⟩
  have hnone : items (tail.map fun _ => Symbol.separator) = [] := by
    have hseparators := items_separators tail []
    rwa [List.append_nil] at hseparators
  rw [(items_append _ (by cases tail <;> simp)).1, hnone, List.append_nil, items_literals,
    if_neg ha.1]

/-- Behind words and separators a text, with separators behind it, is read as one argument that is
the text itself exactly if it is not empty and has no special bytes.  Then nothing else is read. -/
lemma split_behind_bare (hfront : IsBare front)
    (hends : ∀ c, front.getLast? = some c → c ∈ separators) :
    ∃ ws, split front = (if ws = [] then .error .empty else .ok ⟨ws, []⟩) ∧
      ∀ a tail, (∀ c ∈ tail, c ∈ separators) →
        ((∃ l, split (front ++ (a ++ tail)) = .ok l ∧ l.words = ws ++ [a]) ↔ IsVerbatim a) ∧
        (IsVerbatim a → split (front ++ (a ++ tail)) = .ok ⟨ws ++ [a], []⟩) := by
  obtain ⟨ws, hws⟩ := exists_words_bare front
  have hread {s : Bytes} {us : List Symbol} {e : Ending} (h : Lexed s us e) :
      split (front ++ s) = verdict (ws.map .word ++ items us) e := by
    obtain ⟨hlexed, hitems⟩ := lexed_behind_bare hfront hends h
    rw [split_of_lexed hlexed, hitems, hws]
  refine ⟨ws, ?_, fun a tail htail => ?_⟩
  · have hnil := hread .nil
    rw [List.append_nil, items, List.append_nil] at hnil
    rw [hnil]
    split
    · next h => subst h; rfl
    · next h => exact verdict_words h
  · have hverbatim (ha : IsVerbatim a) : split (front ++ (a ++ tail)) = .ok ⟨ws ++ [a], []⟩ := by
      obtain ⟨us, hlexed, hitems⟩ := exists_lexed_verbatim ha htail
      rw [hread hlexed, hitems, ← List.map_singleton, ← List.map_append]
      exact verdict_words (by simp)
    refine ⟨⟨?_, fun ha => ⟨_, hverbatim ha, rfl⟩⟩, hverbatim⟩
    rintro ⟨l, hsplit, hwords⟩
    refine ⟨?_, ?_⟩
    · -- without any text nothing is read behind the words
      rintro rfl
      have hgap := lexed_separators htail .nil
      rw [List.nil_append, ← List.append_nil tail, hread hgap, items_separators] at hsplit
      obtain ⟨-, rfl⟩ := verdict_eq_ok hsplit
      rw [argumentsOf_words_append] at hwords
      exact absurd hwords (by simp [items, argumentsOf, withPrevious])
    · obtain ⟨us, e, hlexed⟩ := exists_lexed (a ++ tail)
      rw [hread hlexed] at hsplit
      obtain ⟨-, rfl⟩ := verdict_eq_ok hsplit
      rw [argumentsOf_words_append, List.append_cancel_left_eq] at hwords
      exact notMem_special_of_argument htail hlexed (by simp [hwords])

end Line

end ConsoleShell
