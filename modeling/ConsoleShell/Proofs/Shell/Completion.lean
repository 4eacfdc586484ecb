/-
Completion of the word at the cursor.

Whatever is completed, the candidates begin with the completed word, so what is inserted continues
it.  The completed word is the last argument of the line so far.  That is the word at the cursor,
unless the cursor is in the name of a target: then it is an argument before the operator, which
the text need not end in.
-/
import ConsoleShell.Proofs.File.Path
import ConsoleShell.Proofs.Line.LastWord
import ConsoleShell.Shell.Completion
import ConsoleShell.Commands.Standard

namespace ConsoleShell

namespace Completion

open Line (IsPlain NamesTarget lastWord separators)

variable {text word : Bytes} {words : List Bytes}

/-! ### Candidates -/

/-- The candidates begin with the completed word. -/
def Continues (c : Completion) : Prop := ∀ x ∈ c.candidates, c.word <+: x

lemma isPrefix_of_startsWith {s p : Bytes} (h : s.startsWith p = true) : p <+: s :=
  List.isPrefixOf_iff_prefix.1 h

lemma continues_finished (word : Bytes) (names : List Bytes) :
    Continues ⟨word, finished word names⟩ := by
  intro x hx
  obtain ⟨name, hname, rfl⟩ := List.mem_map.1 hx
  have hfront := isPrefix_of_startsWith (List.mem_filter.1 hname).2
  exact hfront.trans (List.prefix_append name _)

lemma continues_paths (m : Machine) (word : Bytes) : Continues ⟨word, (paths m word).1⟩ := by
  intro x hx
  simp only [paths] at hx
  split at hx
  · cases hx
  · rw [Bytes.sort, List.mem_mergeSort, List.mem_map] at hx
    obtain ⟨e, he, rfl⟩ := hx
    obtain ⟨rest, hrest⟩ := isPrefix_of_startsWith (List.mem_filter.1 he).2
    -- the directory is kept as it was typed
    refine ⟨rest ++ [if e.2.isDirectory then Ascii.slash else Ascii.space], ?_⟩
    conv_lhs => rw [← Path.split_append word]
    simp [← hrest]

/-- What is inserted is what a candidate has behind the completed word. -/
lemma Continues.map_continuations {c : Completion} (h : c.Continues) :
    c.continuations.map (c.word ++ ·) = c.candidates := by
  rw [continuations, List.map_map]
  refine (List.map_congr_left fun x hx => ?_).trans (List.map_id _)
  obtain ⟨rest, rfl⟩ := h x hx
  have hstarts : Bytes.startsWith (c.word ++ rest) c.word = true :=
    List.isPrefixOf_iff_prefix.2 (List.prefix_append _ _)
  simp [Bytes.dropStart, hstarts]

/-! ### The completed word -/

/-- The text ends in a separator or has no bytes. -/
def EndsOutside (text : Bytes) : Prop := ∀ c, text.getLast? = some c → c ∈ separators

instance (text : Bytes) : Decidable (EndsOutside text) :=
  decidable_of_iff (text.getLast?.all fun c => c ∈ separators) (by
    rw [EndsOutside, Option.all_eq_true]
    simp)

/-- The word that is completed: the last argument, if the text does not end in a separator. -/
def taken (text : Bytes) (words : List Bytes) : Bytes :=
  if EndsOutside text then [] else words.getLast?.getD []

lemma typing_iff (text : Bytes) :
    (text.getLast?.map fun c => !Line.isSeparator c).getD false = true ↔ ¬EndsOutside text := by
  cases hlast : text.getLast? with
  | none => simp [EndsOutside, hlast]
  | some c => simp [EndsOutside, hlast, ← Line.isSeparator_iff]

/-- Whatever is completed, the candidates begin with the word that is completed. -/
lemma complete_spec (m : Machine) (h : words? text = some words) :
    (complete m text).1.word = taken text words ∧ (complete m text).1.Continues := by
  have hword : (if (text.getLast?.map fun c => !Line.isSeparator c).getD false && !words.isEmpty
      then words.getLast?.getD [] else []) = taken text words := by
    rw [taken]
    by_cases hout : EndsOutside text
    · have htyping : ((text.getLast?.map fun c => !Line.isSeparator c).getD false) = false := by
        simpa using mt (typing_iff text).1 (not_not.2 hout)
      rw [if_pos hout, htyping]
      rfl
    · rw [if_neg hout, (typing_iff text).2 hout]
      cases words <;> rfl
  have hnone : Continues ⟨taken text words, []⟩ := nofun
  rw [complete, h]
  simp only [hword]
  -- which kind of word it is depends on its place in the line, the word itself does not
  generalize (if (text.getLast?.map fun c => !Line.isSeparator c).getD false && !words.isEmpty
    then words.length - 1 else words.length) = index
  split
  · exact ⟨rfl, continues_finished _ _⟩
  · split
    · exact ⟨rfl, hnone⟩
    · split
      · exact ⟨rfl, continues_finished _ _⟩
      · split
        · exact ⟨rfl, continues_paths m _⟩
        · exact ⟨rfl, hnone⟩

/-! ### The word at the cursor -/

lemma split_of_words? (h : words? text = some words) :
    (∃ l, Line.split text = .ok l ∧ l.words = words) ∨
      Line.split text = .error .empty ∧ words = [] := by
  rw [words?] at h
  split at h
  · next l hsplit => exact .inl ⟨l, hsplit, Option.some.inj h⟩
  · next hsplit => exact .inr ⟨hsplit, (Option.some.inj h).symm⟩
  · cases h

/-- In a plain text the word that is completed is the word at the cursor, unless the cursor is in
the name of a target. -/
lemma taken_eq (hplain : IsPlain text) (h : words? text = some words) :
    taken text words =
      if lastWord text = [] then []
      else if NamesTarget text then words.getLast?.getD [] else lastWord text := by
  have hwords : (lastWord text = [] → ¬NamesTarget text) ∧
      (lastWord text ≠ [] → ¬NamesTarget text → words.getLast? = some (lastWord text)) := by
    rcases split_of_words? h with ⟨l, hsplit, rfl⟩ | ⟨hsplit, rfl⟩
    · exact Line.words_of_split hplain hsplit
    · obtain ⟨hnil, htarget⟩ := Line.lastWord_of_empty hsplit
      exact ⟨fun _ => htarget, fun hne => absurd hnil hne⟩
  rw [taken]
  by_cases hnil : lastWord text = []
  · have hout : EndsOutside text := fun c hc =>
      Line.mem_separators_of_lastWord hplain hnil (hwords.1 hnil) hc
    rw [if_pos hnil, if_pos hout]
  · have hin : ¬EndsOutside text := fun hout => hnil ((Line.lastWord_eq_nil_iff text).2 fun c hc =>
      by simp [Line.special, hout c hc])
    rw [if_neg hnil, if_neg hin]
    by_cases htarget : NamesTarget text
    · rw [if_pos htarget]
    · rw [if_neg htarget, hwords.2 hnil htarget]
      rfl

/-- **The completed word is at the cursor unless the cursor is in the name of a target.**  In a
text without quotes and backslashes that can be split, the completed word is a suffix of the text
exactly if the last word of the text does not name the target of a redirection or the last argument
is such a suffix by chance.  It is empty after a separator and at the beginning, and every candidate
is the completed word with what is inserted behind it. -/
theorem completed_word_is_suffix_iff (m : Machine) (hplain : IsPlain text)
    (h : words? text = some words) :
    let c := (complete m text).1
    (c.word <:+ text ↔
      (lastWord text ≠ [] → NamesTarget text → words.getLast?.getD [] <:+ text)) ∧
    (lastWord text ≠ [] → ¬NamesTarget text → c.word = lastWord text) ∧
    (lastWord text ≠ [] → NamesTarget text → c.word = words.getLast?.getD []) ∧
    (EndsOutside text → c.word = []) ∧
    (∀ x ∈ c.candidates, c.word <+: x) ∧
    c.continuations.map (c.word ++ ·) = c.candidates := by
  intro c
  obtain ⟨hword, hcontinues⟩ := complete_spec m h
  have hcases : c.word = _ := hword.trans (taken_eq hplain h)
  refine ⟨?_, fun hne htarget => ?_, fun hne htarget => ?_, fun hout => ?_, hcontinues,
    hcontinues.map_continuations⟩
  · rw [hcases]
    split
    · next hnil => exact iff_of_true (List.nil_suffix) fun hne => absurd hnil hne
    · next hne =>
      split
      · next htarget => exact ⟨fun hsuffix _ _ => hsuffix, fun hall => hall hne htarget⟩
      · next htarget =>
        exact iff_of_true (Line.lastWord_suffix text) fun _ hyes => absurd hyes htarget
  · rw [hcases, if_neg hne, if_neg htarget]
  · rw [hcases, if_neg hne, if_pos htarget]
  · exact hword.trans (if_pos hout)

/-- A command whose output goes to a file is completed in the name of the file. -/
theorem target_is_not_completed :
    let m : Machine := { host := { table := CommandTable.standard } }
    let text : Bytes := [104, 101, 108, 112, 32, 62, 32, 111, 117, 116]
    IsPlain text ∧ words? text = some [[104, 101, 108, 112]] ∧
      lastWord text = [111, 117, 116] ∧
      (complete m text).1 = ⟨[104, 101, 108, 112], [[104, 101, 108, 112, 32]]⟩ ∧
      ¬(complete m text).1.word <:+ text := by
  decide +kernel

/-- An argument after a comma and a parenthesis. -/
theorem completed_word_is_suffix_iff_argument :
    let m : Machine := { host := { table := CommandTable.standard } }
    let text : Bytes := [104, 101, 108, 112, 44, 40, 118, 97]
    IsPlain text ∧ words? text = some [[104, 101, 108, 112], [118, 97]] ∧
      (complete m text).1.word <:+ text := by
  intro m text
  have hplain : IsPlain text := by decide +kernel
  have hwords : words? text = some [[104, 101, 108, 112], [118, 97]] := by decide +kernel
  refine ⟨hplain, hwords, ?_⟩
  refine ((completed_word_is_suffix_iff m hplain hwords).1).2 fun _ htarget => ?_
  exact absurd htarget (by decide +kernel)

end Completion

end ConsoleShell
