/-
The word at the end of a line.

In a text without quotes and backslashes the word at the end is what stands after the last
separator or operator.  It is the last argument of the line, unless it names the target of a
redirection: then an operator stands before it, separators apart.
-/
import ConsoleShell.Proofs.Line.Template

namespace ConsoleShell

namespace Line

/-! ### Symbols of two texts -/

/-- Two texts are cut into symbols one after the other, unless the first byte of the second one
belongs to an operator that the first one ends in. -/
lemma Lexed.append_text {s t : Bytes} {ts us : List Symbol} {e : Ending} (h : Lexed s ts .complete)
    (h' : Lexed t us e) (hnext : t.head? ≠ some Ascii.greater) :
    Lexed (s ++ t) (ts ++ us) e := by
  generalize he : Ending.complete = e' at h
  have hhead {r : Bytes} (hr : r.head? ≠ some Ascii.greater) :
      (r ++ t).head? ≠ some Ascii.greater := by
    cases r with
    | nil => exact hnext
    | cons c r => exact hr
  induction h with
  | nil => exact h'
  | dangling | unclosed => cases he
  | escaped hs ih => exact .escaped (ih he)
  | quoted hq htext hs ih =>
    rw [List.cons_append, List.append_assoc, List.cons_append]
    exact .quoted hq htext (ih he)
  | separator hc hs ih => exact .separator hc (ih he)
  | input hs ih => exact .input (ih he)
  | write hr hs ih => exact .write (hhead hr) (ih he)
  | append hs ih => exact .append (ih he)
  | writeTo hd hr hs ih => exact .writeTo hd (hhead hr) (ih he)
  | appendTo hd hs ih => exact .appendTo hd (ih he)
  | literal hc hr hs ih => exact .literal hc (fun hd => hhead (hr hd)) (ih he)

lemma items_part_of_head {us : List Symbol} (hus : ∀ x, us.head? ≠ some (.part x))
    (text : Bytes) : items (.part text :: us) = .word text :: items us := by
  have hparts := items_parts text [] hus
  rwa [List.map_nil, List.nil_append, List.append_nil] at hparts

/-- The words and operators of two sequences of symbols are those of both, unless a word goes on
from the first one to the second one.  The second part carries the induction over a run of
parts. -/
lemma items_append (ts : List Symbol) {us : List Symbol} (hus : ∀ x, us.head? ≠ some (.part x)) :
    items (ts ++ us) = items ts ++ items us ∧
      ∀ text, items (.part text :: (ts ++ us)) = items (.part text :: ts) ++ items us := by
  induction ts with
  | nil => exact ⟨rfl, fun text => items_part_of_head hus text⟩
  | cons t ts ih =>
    cases t with
    | separator =>
      refine ⟨ih.1, fun text => ?_⟩
      rw [items_part_of_head (by simp), List.cons_append, items_part_of_head (by simp)]
      exact congrArg _ ih.1
    | operator op =>
      have hfirst : items (.operator op :: ts ++ us) = items (.operator op :: ts) ++ items us :=
        congrArg (Item.operator op :: ·) ih.1
      refine ⟨hfirst, fun text => ?_⟩
      rw [items_part_of_head (by simp), hfirst, items_part_of_head (by simp), List.cons_append]
    | part a =>
      refine ⟨ih.2 a, fun text => ?_⟩
      rw [List.cons_append, items_part_part, items_part_part]
      exact ih.2 (text ++ a)

/-- A part at the end belongs to a word at the end. -/
lemma getLast?_items_part (ts : List Symbol) (x : Bytes) :
    ∃ text, (items (ts ++ [.part x])).getLast? = some (.word text) ∧
      ∀ before, ∃ text, (items (.part before :: (ts ++ [.part x]))).getLast? = some (.word text) := by
  induction ts with
  | nil => exact ⟨x, rfl, fun before => ⟨before ++ x, rfl⟩⟩
  | cons t ts ih =>
    obtain ⟨text, hlast, hparts⟩ := ih
    have hcons (i : Item) : (i :: items (ts ++ [.part x])).getLast? = some (.word text) := by
      rw [List.getLast?_cons, hlast]
      rfl
    cases t with
    | separator =>
      refine ⟨text, hlast, fun before => ⟨text, ?_⟩⟩
      rw [List.cons_append, items_part_of_head (by simp)]
      exact hcons _
    | operator op =>
      refine ⟨text, hcons _, fun before => ⟨text, ?_⟩⟩
      rw [List.cons_append, items_part_of_head (by simp), List.getLast?_cons]
      exact congrArg (fun i => some (Option.getD i _)) (hcons (.operator op))
    | part a =>
      obtain ⟨text', hlast'⟩ := hparts a
      refine ⟨text', hlast', fun before => ?_⟩
      rw [List.cons_append, items_part_part]
      exact hparts (before ++ a)

/-! ### Texts without quotes and backslashes -/

/-- There are no quotes and no backslashes in the text. -/
def IsPlain (s : Bytes) : Prop := ∀ c ∈ s, c ∉ quotes ∧ c ≠ Ascii.backslash

instance (s : Bytes) : Decidable (IsPlain s) :=
  inferInstanceAs (Decidable (∀ c ∈ s, c ∉ quotes ∧ c ≠ Ascii.backslash))

/-- A byte begins or ends an operator. -/
def IsArrow (c : UInt8) : Prop := c = Ascii.less ∨ c = Ascii.greater

instance : DecidablePred IsArrow := fun c =>
  inferInstanceAs (Decidable (c = Ascii.less ∨ c = Ascii.greater))

lemma not_special_iff {c : UInt8} (hq : c ∉ quotes) (hb : c ≠ Ascii.backslash) :
    c ∉ special ↔ c ∉ separators ∧ ¬IsArrow c := by
  simp only [special, List.mem_cons, List.mem_append, not_or, IsArrow]
  tauto

lemma IsPlain.of_append {s t : Bytes} (h : IsPlain (s ++ t)) : IsPlain s ∧ IsPlain t :=
  List.forall_mem_append.1 h

/-- The byte is the last one of the symbol. -/
def Symbol.EndsIn (c : UInt8) : Symbol → Prop
  | .separator => c ∈ separators
  | .operator _ => IsArrow c
  | .part _ => c ∉ special

/-- A plain text is complete, and its last byte is that of its last symbol. -/
lemma Lexed.plain {s : Bytes} {ts : List Symbol} {e : Ending} (h : Lexed s ts e)
    (hs : IsPlain s) :
    e = .complete ∧ (s = [] → ts = []) ∧
      ∀ c, s.getLast? = some c → ∃ t, ts.getLast? = some t ∧ t.EndsIn c := by
  have hcons {s : Bytes} {ts : List Symbol} {e : Ending} {c : UInt8} {t : Symbol}
      (ht : t.EndsIn c) (ih : e = .complete ∧ (s = [] → ts = []) ∧
        ∀ c, s.getLast? = some c → ∃ t, ts.getLast? = some t ∧ t.EndsIn c) :
      e = .complete ∧ (c :: s = [] → t :: ts = []) ∧
        ∀ d, (c :: s).getLast? = some d → ∃ u, (t :: ts).getLast? = some u ∧ u.EndsIn d := by
    obtain ⟨he, hnil, hlast⟩ := ih
    refine ⟨he, nofun, fun d hd => ?_⟩
    cases s with
    | nil =>
      obtain rfl : c = d := by simpa using hd
      exact ⟨t, by rw [hnil rfl]; rfl, ht⟩
    | cons b s =>
      obtain ⟨u, hu, hud⟩ := hlast d (by rwa [List.getLast?_cons_cons] at hd)
      exact ⟨u, by rw [List.getLast?_cons, hu]; rfl, hud⟩
  -- an operator of several bytes ends in its last byte
  have hmore {b c : UInt8} {s : Bytes} {t : Symbol} {ts : List Symbol} {e : Ending}
      (h : e = .complete ∧ (c :: s = [] → t :: ts = []) ∧
        ∀ d, (c :: s).getLast? = some d → ∃ u, (t :: ts).getLast? = some u ∧ u.EndsIn d) :
      e = .complete ∧ (b :: c :: s = [] → t :: ts = []) ∧
        ∀ d, (b :: c :: s).getLast? = some d → ∃ u, (t :: ts).getLast? = some u ∧ u.EndsIn d :=
    ⟨h.1, nofun, fun d hd => h.2.2 d (by rwa [List.getLast?_cons_cons] at hd)⟩
  have hrest {c : UInt8} {s : Bytes} (hs : IsPlain (c :: s)) : IsPlain s :=
    (List.forall_mem_cons.1 hs).2
  induction h with
  | nil => exact ⟨rfl, fun _ => rfl, nofun⟩
  | dangling => exact absurd rfl (hs _ List.mem_cons_self).2
  | escaped => exact absurd rfl (hs _ List.mem_cons_self).2
  | quoted hq => exact absurd hq (hs _ List.mem_cons_self).1
  | unclosed hq => exact absurd hq (hs _ List.mem_cons_self).1
  | separator hc _ ih => exact hcons hc (ih (hrest hs))
  | input _ ih => exact hcons (.inl rfl) (ih (hrest hs))
  | write _ _ ih => exact hcons (.inr rfl) (ih (hrest hs))
  | append _ ih => exact hmore (hcons (.inr rfl) (ih (hrest (hrest hs))))
  | writeTo _ _ _ ih => exact hmore (hcons (.inr rfl) (ih (hrest (hrest hs))))
  | appendTo _ _ ih => exact hmore (hmore (hcons (.inr rfl) (ih (hrest (hrest (hrest hs))))))
  | literal hc _ _ ih => exact hcons hc (ih (hrest hs))

/-- An operator waits for its target after a text that does not end in a separator exactly if the
text ends in an operator. -/
lemma pendingOf_plain {s : Bytes} {ts : List Symbol} {e : Ending} (h : Lexed s ts e)
    (hs : IsPlain s) (hseparator : ∀ c, s.getLast? = some c → c ∉ separators) :
    (pendingOf (items ts)).isSome ↔ ∃ c, s.getLast? = some c ∧ IsArrow c := by
  obtain ⟨-, hnil, hlast⟩ := h.plain hs
  cases hc : s.getLast? with
  | none =>
    rw [hnil (List.getLast?_eq_none_iff.1 hc)]
    simp [items, pendingOf]
  | some c =>
    obtain ⟨t, ht, hends⟩ := hlast c hc
    obtain ⟨ts, rfl⟩ := List.getLast?_eq_some_iff.1 ht
    cases t with
    | separator => exact absurd hends (hseparator c hc)
    | operator op =>
      rw [(@items_append ts [.operator op] (by simp)).1, items, items,
        pendingOf_append_operator]
      exact iff_of_true rfl ⟨c, rfl, hends⟩
    | part x =>
      obtain ⟨text, htext, -⟩ := getLast?_items_part ts x
      have hplain := hs c (List.mem_of_getLast? hc)
      have harrow := ((not_special_iff hplain.1 hplain.2).1 hends).2
      constructor
      · intro hpending
        rw [pendingOf, htext] at hpending
        cases hpending
      · rintro ⟨d, hd, hdarrow⟩
        exact absurd (Option.some.inj hd ▸ hdarrow) harrow

/-! ### The last word -/

/-- The word at the end of a plain text: what stands after the last separator or operator. -/
def lastWord (s : Bytes) : Bytes := s.rtakeWhile fun c => c ∉ special

/-- What stands before the last word and the separators in front of it. -/
def beforeLastWord (s : Bytes) : Bytes :=
  (s.rdropWhile fun c => c ∉ special).rdropWhile fun c => c ∈ separators

/-- The last word of a plain text names the target of a redirection: an operator stands before
it, separators apart. -/
def NamesTarget (s : Bytes) : Prop := ∃ c, (beforeLastWord s).getLast? = some c ∧ IsArrow c

instance (s : Bytes) : Decidable (NamesTarget s) :=
  decidable_of_iff ((beforeLastWord s).getLast?.any fun c => IsArrow c) (by
    rw [NamesTarget, Option.any_eq_true]
    simp)

lemma lastWord_suffix (s : Bytes) : lastWord s <:+ s := List.rtakeWhile_suffix _ _

/-- There is no last word after a separator or an operator, and in an empty text. -/
lemma lastWord_eq_nil_iff (s : Bytes) :
    lastWord s = [] ↔ ∀ c, s.getLast? = some c → c ∈ special := by
  rcases List.eq_nil_or_concat' s with rfl | ⟨s, d, rfl⟩
  · simp [lastWord]
  · rw [lastWord, List.rtakeWhile_concat]
    split <;> simp_all

lemma not_of_getLast?_rdropWhile {p : UInt8 → Bool} {s : Bytes} {c : UInt8}
    (h : (s.rdropWhile p).getLast? = some c) : ¬p c := by
  obtain ⟨t, ht⟩ := List.getLast?_eq_some_iff.1 h
  have hne : s.rdropWhile p ≠ [] := by simp [ht]
  simpa [ht] using List.rdropWhile_last_not p s hne

/-- Without a last word a plain text ends in a separator, unless an operator waits for its
target. -/
lemma mem_separators_of_lastWord {s : Bytes} (hs : IsPlain s) (h : lastWord s = [])
    (htarget : ¬NamesTarget s) {c : UInt8} (hc : s.getLast? = some c) : c ∈ separators := by
  have hspecial := (lastWord_eq_nil_iff s).1 h c hc
  have hplain := hs c (List.mem_of_getLast? hc)
  by_contra hseparator
  have harrow : IsArrow c := by
    by_contra harrow
    exact (not_special_iff hplain.1 hplain.2).2 ⟨hseparator, harrow⟩ hspecial
  -- nothing stands behind the operator
  obtain ⟨t, rfl⟩ := List.getLast?_eq_some_iff.1 hc
  have hbefore : beforeLastWord (t ++ [c]) = t ++ [c] := by
    rw [beforeLastWord, List.rdropWhile_concat_neg _ _ _ (by simpa using hspecial),
      List.rdropWhile_concat_neg _ _ _ (by simpa using hseparator)]
  exact htarget ⟨c, by rw [hbefore, hc], harrow⟩

/-- A text is cut at its last word. -/
lemma exists_cut (s : Bytes) :
    ∃ gap, s = beforeLastWord s ++ gap ++ lastWord s ∧ (∀ c ∈ gap, c ∈ separators) ∧
      (∀ c ∈ lastWord s, c ∉ special) ∧
      (∀ c, (beforeLastWord s).getLast? = some c → c ∉ separators) ∧
      (gap = [] → ∀ c, (beforeLastWord s).getLast? = some c → c ∈ special) := by
  let front := s.rdropWhile fun c => c ∉ special
  let gap := front.rtakeWhile fun c => c ∈ separators
  have hfront : beforeLastWord s ++ gap = front := List.rdropWhile_append_rtakeWhile
  have hs : front ++ lastWord s = s := List.rdropWhile_append_rtakeWhile
  refine ⟨gap, by rw [hfront, hs], fun c hc => ?_, fun c hc => ?_, fun c hc => ?_, ?_⟩
  · simpa using List.mem_rtakeWhile_imp hc
  · simpa using List.mem_rtakeWhile_imp hc
  · simpa using not_of_getLast?_rdropWhile hc
  · intro hgap c hc
    rw [hgap, List.append_nil] at hfront
    rw [hfront] at hc
    simpa using not_of_getLast?_rdropWhile hc

/-! ### Arguments -/

/-- What is read of a text up to its last word. -/
structure Before (s : Bytes) (is : List Item) : Prop where
  split_eq : split s = verdict (is ++ if lastWord s = [] then [] else [.word (lastWord s)]) .complete
  pending : (pendingOf is).isSome ↔ NamesTarget s

/-- The word or no word that literal bytes are. -/
lemma items_literals (word : Bytes) :
    items (word.map fun c => .part [c]) = if word = [] then [] else [.word word] := by
  cases word with
  | nil => rfl
  | cons c word =>
    have hparts := @items_parts [c] word [] (by simp)
    rwa [List.append_nil] at hparts

/-- After an operator a word begins, whatever comes next. -/
lemma items_append_of_operator {ts : List Symbol} {op : Operator}
    (h : ts.getLast? = some (.operator op)) (us : List Symbol) :
    items (ts ++ us) = items ts ++ items us := by
  obtain ⟨ts, rfl⟩ := List.getLast?_eq_some_iff.1 h
  have hseam (us : List Symbol) : items (ts ++ .operator op :: us) =
      items ts ++ .operator op :: items us := (items_append ts (by simp)).1
  rw [List.append_assoc, List.singleton_append, hseam, hseam, List.append_assoc]
  rfl

lemma exists_before {s : Bytes} (hs : IsPlain s) : ∃ is, Before s is := by
  obtain ⟨gap, hcut, hgap, hword, hend, hjoint⟩ := exists_cut s
  have hplain : IsPlain (beforeLastWord s) := by
    rw [hcut, List.append_assoc] at hs
    exact hs.of_append.1
  obtain ⟨ts, e, hlexed⟩ := exists_lexed (beforeLastWord s)
  obtain ⟨rfl, hnil, hlast⟩ := hlexed.plain hplain
  let parts : List Symbol := (lastWord s).map fun c => .part [c]
  have hparts : Lexed (lastWord s) parts .complete := by
    simpa using lexed_literals hword (s := []) (by simp) .nil
  have hnext : (gap ++ lastWord s).head? ≠ some Ascii.greater := by
    intro hhead
    rcases List.mem_append.1 (List.mem_of_mem_head? hhead) with hmem | hmem
    · exact absurd (hgap _ hmem) (by decide)
    · exact hword _ hmem (by decide)
  have hwhole : Lexed s (ts ++ (gap.map (fun _ => .separator) ++ parts)) .complete := by
    have happend := hlexed.append_text (lexed_separators hgap hparts) hnext
    rwa [← List.append_assoc, ← hcut] at happend
  have hitems : items (ts ++ (gap.map (fun _ => .separator) ++ parts)) = items ts ++ items parts := by
    cases gap with
    | cons c gap =>
      rw [(items_append ts (by simp)).1, items_separators]
    | nil =>
      -- the word stands right after an operator or at the beginning
      rw [List.map_nil, List.nil_append]
      cases hc : (beforeLastWord s).getLast? with
      | none =>
        rw [hnil (List.getLast?_eq_none_iff.1 hc)]
        rfl
      | some c =>
        obtain ⟨t, ht, hends⟩ := hlast c hc
        cases t with
        | separator => exact absurd hends (hend c hc)
        | operator op => exact items_append_of_operator ht parts
        | part x => exact absurd (hjoint rfl c hc) hends
  refine ⟨items ts, ?_, pendingOf_plain hlexed hplain hend⟩
  rw [split_of_lexed hwhole, hitems, items_literals]

lemma verdict_ne_ok_of_pending {is : List Item} {e : Ending} (h : (pendingOf is).isSome)
    (l : Line) : verdict is e ≠ .ok l := by
  unfold verdict
  split
  · simp
  · rw [if_pos h]
    simp

/-- A plain line has a last word or ends in a separator, and the last word is its last argument,
unless it names the target of a redirection. -/
lemma words_of_split {s : Bytes} {l : Line} (hs : IsPlain s) (h : split s = .ok l) :
    (lastWord s = [] → ¬NamesTarget s) ∧
      (lastWord s ≠ [] → ¬NamesTarget s → l.words.getLast? = some (lastWord s)) := by
  obtain ⟨is, hbefore⟩ := exists_before hs
  rw [hbefore.split_eq] at h
  constructor
  · intro hnil htarget
    rw [if_pos hnil, List.append_nil] at h
    exact verdict_ne_ok_of_pending (hbefore.pending.2 htarget) l h
  · intro hne htarget
    have hpending : pendingOf is = none := by
      simpa using mt hbefore.pending.1 htarget
    rw [if_neg hne] at h
    obtain ⟨-, rfl⟩ := verdict_eq_ok h
    simp [argumentsOf_append_argument hpending]

/-- Separators alone have no last word. -/
lemma lastWord_of_empty {s : Bytes} (h : split s = .error .empty) :
    lastWord s = [] ∧ ¬NamesTarget s := by
  have hall := (split_eq_empty_iff s).1 h
  constructor
  · rw [lastWord_eq_nil_iff]
    intro c hc
    have hmem := hall c (List.mem_of_getLast? hc)
    simp [special, hmem]
  · rintro ⟨c, hc, harrow⟩
    have hfront : beforeLastWord s <+: s :=
      (List.rdropWhile_prefix _ _).trans (List.rdropWhile_prefix _ _)
    have hmem := hall c (hfront.subset (List.mem_of_getLast? hc))
    rcases harrow with rfl | rfl <;> exact absurd hmem (by decide)

end Line

end ConsoleShell
