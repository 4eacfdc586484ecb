/-
How much of a log is read.

A log is read value by value, with blanks around each of them.  It is read without a fault up to
its end or up to a bracket that closes nothing, and the entries are those of the values in front.
So a reading without a fault is one of the whole log unless there is such a bracket behind values
that are entries; what stands behind the bracket is then lost.
-/
import ConsoleShell.Log.Entry
import ConsoleShell.Proofs.Json.Values

namespace ConsoleShell

namespace LogReading

open Json (Blank)

/-! ### Values and their entries -/

/-- A bracket or a brace that closes something. -/
def IsClosing (c : UInt8) : Prop := c = Ascii.closeBracket ∨ c = Ascii.closeBrace

/-- The value is read, and as this entry. -/
def Describes (v : Json) (e : LogEntry) : Prop :=
  v.depth ≤ Json.maxDepth ∧ LogEntry.ofJson? v = some e

/-- The text is values with nothing but blanks between them and around them, and these are their
entries, one for each value and in order.  What follows a value is of the given kind. -/
inductive Sequence (next : Bytes → Prop) : List LogEntry → Bytes → Prop
  | nil {s : Bytes} (hs : Blank s) : Sequence next [] s
  | cons {v : Json} {e : LogEntry} {es : List LogEntry} {a t s : Bytes} (ha : Blank a)
    (ht : v.HasText t) (he : Describes v e) (hnext : next s) (hs : Sequence next es s) :
    Sequence next (e :: es) (a ++ t ++ s)

/-- Anything may follow a value, also the next one without a blank. -/
def Anything (_ : Bytes) : Prop := True

/-- A blank follows a value unless it is the last one. -/
def Apart (s : Bytes) : Prop := ∀ c ∈ s.head?, Json.isBlank c = true

variable {next : Bytes → Prop} {v : Json} {e : LogEntry} {es es' : List LogEntry}
  {a t s front rest : Bytes} {c : UInt8} {fuel : Nat}

lemma isClosing_iff :
    (c == Ascii.closeBracket || c == Ascii.closeBrace) = true ↔ IsClosing c := by
  simp [IsClosing]

lemma IsClosing.isBlank (h : IsClosing c) : Json.isBlank c = false := by
  rcases h with rfl | rfl <;> rfl

/-- No value begins with a closing bracket. -/
lemma IsClosing.not_hasText (h : IsClosing c) : ¬ v.HasText (c :: t) := by
  intro ht
  obtain ⟨d, r, hcons, -, hbracket, hbrace⟩ := ht.exists_cons
  obtain ⟨rfl, -⟩ := List.cons.inj hcons
  exact h.elim hbracket hbrace

/-- A value that is read as an entry is no number, so that it ends by itself. -/
lemma Describes.stops (h : Describes v e) (s : Bytes) : ∀ n, v = .number n → Json.Stops s := by
  rintro n rfl
  cases h.2

lemma not_blank_of_hasText (ht : v.HasText t) : ¬ Blank (a ++ t ++ s) := by
  obtain ⟨c, r, rfl, hc⟩ := ht.exists_visible
  intro hblank
  have hmem := hblank c (by simp)
  rw [hc] at hmem
  cases hmem

lemma Sequence.blank_append (ha : Blank a) (h : Sequence next es s) :
    Sequence next es (a ++ s) := by
  cases h with
  | nil hs => exact .nil (ha.append hs)
  | cons hb ht he hnext hs =>
    rw [← List.append_assoc, ← List.append_assoc]
    exact .cons (ha.append hb) ht he hnext hs

lemma Sequence.append (h : Sequence Anything es front) (hrest : Sequence Anything es' rest) :
    Sequence Anything (es ++ es') (front ++ rest) := by
  induction h with
  | nil hs => exact hrest.blank_append hs
  | cons ha ht he hnext hs ih =>
    rw [List.append_assoc]
    exact .cons ha ht he trivial ih

/-- The value that a text begins with is the first of its values. -/
lemma Sequence.of_cons (ha : Blank a) (ht : v.HasText t) (he : Describes v e)
    (h : Sequence next es (a ++ t ++ s)) : next s ∧ ∃ es', Sequence next es' s := by
  -- the cases take the text apart in a way of their own, so it gets a name
  obtain ⟨log, hlog⟩ : ∃ u, u = a ++ t ++ s := ⟨_, rfl⟩
  rw [← hlog] at h
  cases h with
  | nil hblank => exact absurd (hlog ▸ hblank) (not_blank_of_hasText ht)
  | cons hb hu he' hnext hs =>
    obtain ⟨-, rfl⟩ := hu.unique hb ha ht (he'.stops _) (he.stops _) hlog
    exact ⟨hnext, _, hs⟩

/-- Behind values that a text begins with there are the others of its values. -/
lemma Sequence.of_append (hfront : Sequence Anything es front)
    (h : Sequence next es' (front ++ rest)) :
    ∃ b es'', Blank b ∧ Sequence next es'' (b ++ rest) := by
  induction hfront generalizing es' with
  | @nil b hb => exact ⟨b, es', hb, h⟩
  | cons ha ht he hnext hs ih =>
    rw [List.append_assoc] at h
    obtain ⟨-, es'', hrest⟩ := h.of_cons ha ht he
    exact ih hrest

/-- Values do not go on with a closing bracket. -/
lemma not_sequence_of_closing (hc : IsClosing c) (ha : Blank a) :
    ¬ Sequence next es (a ++ c :: s) := by
  intro h
  obtain ⟨log, hlog⟩ : ∃ u, u = a ++ c :: s := ⟨_, rfl⟩
  rw [← hlog] at h
  have hskip : Json.skipBlanks log = c :: s := by
    rw [hlog, Json.skipBlanks_append ha, Json.skipBlanks_cons hc.isBlank]
  cases h with
  | nil hblank => simp [Json.skipBlanks_of_blank hblank] at hskip
  | cons hb ht he hnext hs =>
    rw [ht.skipBlanks hb] at hskip
    obtain ⟨d, r, rfl, -⟩ := ht.exists_cons
    obtain ⟨rfl, -⟩ := List.cons.inj hskip
    exact hc.not_hasText ht

/-! ### Reading -/

/-- A reading ends here without a fault. -/
def Ends (rest : Bytes) : Prop := ∀ c ∈ rest.head?, IsClosing c

lemma readFrom_end (ha : Blank a) (hrest : Ends rest) (fuel : Nat) :
    readFrom fuel (a ++ rest) = ⟨[], true⟩ := by
  cases fuel with
  | zero => rfl
  | succ fuel =>
    rw [readFrom, Json.skipBlanks_append ha]
    cases rest with
    | nil => rfl
    | cons c rest =>
      have hc : IsClosing c := hrest c rfl
      rw [Json.skipBlanks_cons hc.isBlank]
      exact if_pos (isClosing_iff.2 hc)

/-- A value is read as its entry, and then what follows it. -/
lemma readFrom_value (ha : Blank a) (ht : v.HasText t) (he : Describes v e) (fuel : Nat)
    (s : Bytes) :
    readFrom (fuel + 1) (a ++ t ++ s) =
      ⟨e :: (readFrom fuel s).entries, (readFrom fuel s).sound⟩ := by
  obtain ⟨c, r, hcons, hc, hbracket, hbrace⟩ := ht.exists_cons
  have hclosing : (c == Ascii.closeBracket || c == Ascii.closeBrace) = false := by
    simp [Ascii.closeBracket, Ascii.closeBrace, hbracket, hbrace]
  have hnext := ht.next? he.1 Json.blank_nil (he.stops s)
  rw [List.nil_append, hcons, List.cons_append] at hnext
  rw [readFrom, ht.skipBlanks ha, hcons, List.cons_append]
  simp [hclosing, hnext, he.2]

/-- A step that finds no fault is at the end or reads a value. -/
lemma readFrom_succ_cases (h : (readFrom (fuel + 1) s).sound = true) :
    (∃ a rest, s = a ++ rest ∧ Blank a ∧ Ends rest) ∨
      ∃ a t r v e, s = a ++ t ++ r ∧ Blank a ∧ v.HasText t ∧ Describes v e := by
  obtain ⟨a, ha, hs⟩ := Json.exists_blank_append s
  rw [readFrom] at h
  split at h
  · rename_i hskip
    exact .inl ⟨a, [], by rw [hs, hskip], ha, nofun⟩
  · rename_i c r hskip
    split_ifs at h with hclosing
    · refine .inl ⟨a, c :: r, by rw [hs, hskip], ha, fun d hd => ?_⟩
      obtain rfl : c = d := Option.some.inj hd
      exact isClosing_iff.1 hclosing
    · split at h
      · cases h
      · rename_i v rest hnext
        obtain ⟨⟨b, t, hcons, hb, ht⟩, hdepth⟩ := Json.exists_text_of_next? hnext
        split at h
        · cases h
        · rename_i e he
          refine .inr ⟨a ++ b, t, rest, v, e, ?_, ha.append hb, ht, hdepth, he⟩
          rw [hs, hskip, hcons]
          simp only [List.append_assoc]

/-- What is read without a fault is values, up to the end or to a bracket that closes nothing. -/
lemma exists_sequence (hlength : s.length < fuel) (h : readFrom fuel s = ⟨es, true⟩) :
    ∃ front rest, s = front ++ rest ∧ Ends rest ∧ Sequence Anything es front := by
  induction fuel generalizing s es with
  | zero => exact absurd hlength (Nat.not_lt_zero _)
  | succ fuel ih =>
    obtain ⟨a, rest, rfl, ha, hrest⟩ | ⟨a, t, r, v, e, rfl, ha, ht, he⟩ :=
      readFrom_succ_cases (congrArg LogReading.sound h)
    · rw [readFrom_end ha hrest] at h
      cases h
      exact ⟨a, rest, rfl, hrest, .nil ha⟩
    · rw [readFrom_value ha ht he] at h
      obtain ⟨rfl, hsound⟩ := LogReading.mk.inj h
      have hread : readFrom fuel r = ⟨(readFrom fuel r).entries, true⟩ := by rw [← hsound]
      -- a value has at least one byte, so the fuel stays ahead of the text
      obtain ⟨c, u, rfl, -⟩ := ht.exists_cons
      have hshorter : r.length < fuel := by
        simp only [List.length_append, List.length_cons] at hlength
        omega
      obtain ⟨front, rest, hr, hrest, hfront⟩ := ih hshorter hread
      exact ⟨a ++ c :: u ++ front, rest, by rw [hr]; simp, hrest, .cons ha ht he trivial hfront⟩

/-- Values are read with an entry for each of them. -/
lemma readFrom_sequence (hfront : Sequence Anything es front) (hrest : Ends rest)
    (hlength : front.length < fuel) : readFrom fuel (front ++ rest) = ⟨es, true⟩ := by
  induction hfront generalizing fuel with
  | nil hs => exact readFrom_end hs hrest fuel
  | @cons v e es a t s ha ht he hnext hs ih =>
    obtain ⟨fuel, rfl⟩ := Nat.exists_eq_add_one_of_ne_zero (Nat.ne_zero_of_lt hlength)
    obtain ⟨c, u, rfl, -⟩ := ht.exists_cons
    have hshorter : s.length < fuel := by
      simp only [List.length_append, List.length_cons] at hlength
      omega
    rw [List.append_assoc, readFrom_value ha ht he, ih hshorter]

/-- **What a reading without a fault has read.**  The entries are those of values that the log
begins with, up to its end or to a bracket that closes nothing. -/
theorem ofBytes_eq_iff :
    ofBytes s = ⟨es, true⟩ ↔
      ∃ front rest, s = front ++ rest ∧ Ends rest ∧ Sequence Anything es front := by
  constructor
  · exact exists_sequence (Nat.lt_succ_self _)
  · rintro ⟨front, rest, rfl, hrest, hfront⟩
    exact readFrom_sequence hfront hrest (by simp only [List.length_append]; omega)

/-- Values need no blank between them. -/
example : ofBytes "{}null" = ⟨[{}, {}], true⟩ := by decide +kernel

/-! ### Whole logs -/

/-- The log is values, and each of them has been read as one entry, in order. -/
def ReadsWhole (next : Bytes → Prop) (s : Bytes) : Prop := Sequence next (ofBytes s).entries s

/-- Behind values that are entries there is a bracket that closes nothing. -/
def BreaksOff (s : Bytes) : Prop :=
  ∃ es front c rest, s = front ++ c :: rest ∧ IsClosing c ∧ Sequence Anything es front

/-- The log is values that are entries, and one of them has another right behind it. -/
def Touches (s : Bytes) : Prop :=
  ∃ v e es es' front t rest, s = front ++ t ++ rest ∧ Sequence Anything es front ∧
    v.HasText t ∧ Describes v e ∧ ¬ Apart rest ∧ Sequence Anything es' rest

lemma BreaksOff.sound (h : BreaksOff s) : (ofBytes s).sound = true := by
  obtain ⟨es, front, c, rest, rfl, hc, hfront⟩ := h
  have hrest : Ends (c :: rest) := fun d hd => Option.some.inj hd ▸ hc
  rw [ofBytes_eq_iff.2 ⟨front, c :: rest, rfl, hrest, hfront⟩]

lemma BreaksOff.not_readsWhole (h : BreaksOff s) : ¬ ReadsWhole next s := by
  obtain ⟨es, front, c, rest, rfl, hc, hfront⟩ := h
  intro hwhole
  obtain ⟨b, es', hb, hs⟩ := hfront.of_append hwhole
  exact not_sequence_of_closing hc hb hs

lemma readsWhole_of_not_breaksOff (h : ¬ BreaksOff s) (hsound : (ofBytes s).sound = true) :
    ReadsWhole Anything s := by
  have hread : ofBytes s = ⟨(ofBytes s).entries, true⟩ := by rw [← hsound]
  obtain ⟨front, rest, hs, hrest, hfront⟩ := ofBytes_eq_iff.1 hread
  cases rest with
  | nil =>
    obtain rfl : s = front := by rw [hs, List.append_nil]
    exact hfront
  | cons c rest => exact absurd ⟨_, front, c, rest, hs, hrest c rfl, hfront⟩ h

lemma Touches.sound (h : Touches s) : (ofBytes s).sound = true := by
  obtain ⟨v, e, es, es', front, t, rest, rfl, hfront, ht, he, -, hrest⟩ := h
  have hvalues : Sequence Anything (es ++ e :: es') (front ++ t ++ rest) := by
    rw [List.append_assoc]
    exact hfront.append (.cons Json.blank_nil ht he trivial hrest)
  rw [ofBytes_eq_iff.2 ⟨_, [], (List.append_nil _).symm, nofun, hvalues⟩]

lemma Touches.not_readsWhole (h : Touches s) : ¬ ReadsWhole Apart s := by
  obtain ⟨v, e, es, es', front, t, rest, rfl, hfront, ht, he, htouch, -⟩ := h
  intro hwhole
  rw [ReadsWhole, List.append_assoc] at hwhole
  obtain ⟨b, es'', hb, hs⟩ := hfront.of_append hwhole
  rw [← List.append_assoc] at hs
  exact htouch (hs.of_cons hb ht he).1

/-- Values that do not touch are apart. -/
lemma Sequence.apart_or_touches (h : Sequence Anything es s) :
    Sequence Apart es s ∨ Touches s := by
  induction h with
  | nil hs => exact .inl (.nil hs)
  | @cons v e es a t s ha ht he hnext hs ih =>
    by_cases hapart : Apart s
    · rcases ih with hs' | ⟨w, f, es₁, es₂, front, u, rest, rfl, hfront, hu, hf, htouch, hrest⟩
      · exact .inl (.cons ha ht he hapart hs')
      · exact .inr ⟨w, f, e :: es₁, es₂, a ++ t ++ front, u, rest, by simp only [List.append_assoc],
          .cons ha ht he trivial hfront, hu, hf, htouch, hrest⟩
    · exact .inr ⟨v, e, [], es, a, t, s, rfl, .nil ha, ht, he, hapart, hs⟩

/-- **When a reading without a fault is one of the whole log.**  A log that is read without a fault
has been read as a whole, with one entry for each of its values, exactly if no bracket that closes
nothing stands behind values that are entries; what stands behind such a bracket is not read.  The
values then are apart from each other exactly if none of them has another right behind it. -/
theorem sound_reading_is_whole_iff (s : Bytes) :
    (((ofBytes s).sound = true → ReadsWhole Anything s) ↔ ¬ BreaksOff s) ∧
      (((ofBytes s).sound = true → ReadsWhole Apart s) ↔ ¬ BreaksOff s ∧ ¬ Touches s) := by
  refine ⟨⟨fun h hbreaks => ?_, readsWhole_of_not_breaksOff⟩, fun h => ⟨?_, ?_⟩, ?_⟩
  · exact hbreaks.not_readsWhole (h hbreaks.sound)
  · exact fun hbreaks => hbreaks.not_readsWhole (h hbreaks.sound)
  · exact fun htouches => htouches.not_readsWhole (h htouches.sound)
  · rintro ⟨hbreaks, htouches⟩ hsound
    exact (readsWhole_of_not_breaksOff hbreaks hsound).apart_or_touches.resolve_right htouches

/-- An object, a bracket and another object: the second object is lost without a fault. -/
theorem stray_bracket_ends_the_log :
    ofBytes "{} ]{}" = ⟨[{}], true⟩ ∧ ¬ ReadsWhole Anything "{} ]{}" := by
  have hobject : (Json.object []).HasText "{}" := ⟨[], rfl, Json.blank_nil⟩
  have hfront : Sequence Anything [{}] "{} " :=
    .cons (a := []) (t := "{}") (s := " ") Json.blank_nil hobject ⟨by decide, rfl⟩ trivial
      (.nil (by decide +kernel))
  have hbreaks : BreaksOff "{} ]{}" := ⟨_, "{} ", Ascii.closeBracket, "{}", rfl, .inl rfl, hfront⟩
  exact ⟨by decide +kernel, hbreaks.not_readsWhole⟩

end LogReading

end ConsoleShell
