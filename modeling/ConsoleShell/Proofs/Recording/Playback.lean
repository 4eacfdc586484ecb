/-
What a session showed and what its recording shows.

The bytes that go through the streams of a session reach the recorder in chunks, which are cut
wherever a write or a read ends.  Binary records keep the bytes of every chunk.  Lines of JSON
keep text: a chunk that begins or ends inside a character is not text, even if the chunks
together are, and replacing its stray bytes makes it longer.
-/
import ConsoleShell.Proofs.Recording.Closing
import ConsoleShell.Proofs.Recording.Truncation

namespace ConsoleShell

namespace Recording

/-! ### From a session to a display -/

/-- The bytes of a chunk that the user of the session was shown. -/
def Chunk.shown (c : Chunk) : Bytes := c.entry.shown

/-- A sink that takes every entry. -/
def unlimited : SinkRule := fun _ _ => none

/-- The recorder of a session that ended at a given time, after chunks went through its
streams. -/
def Recorder.ofSession (cs : List Chunk) (finish : Int) : Recorder :=
  (cs.map Call.observe ++ [Call.close finish]).foldl (Recorder.perform unlimited) {}

namespace Format

/-- The recording of a session that ended at a given time. -/
def record (format : Format) (cs : List Chunk) (finish : Int) : Bytes :=
  format.write (Recorder.ofSession cs finish).entries

/-- What is shown when a recording is played. -/
def display (format : Format) (s : Bytes) : Bytes := (play format s (.display {})).2.2.bytes

lemma display_eq (format : Format) (s : Bytes) :
    format.display s = (format.read s).1.flatMap Entry.shown := by
  rw [display, play_display]
  rfl

end Format

/-! ### The entries of a session -/

lemma Recorder.entries_passAll_unlimited {r : Recorder} (h : ∀ a ∈ r.attempts, a.failure = none)
    (ss : List Section) : (r.passAll unlimited ss).entries = (r.passAll unlimited ss).handed := by
  induction ss generalizing r with
  | nil =>
    rw [passAll, List.foldl_nil, entries, List.filter_eq_self.2, handed]
    exact fun a ha => by rw [h a ha]; rfl
  | cons s ss ih =>
    refine ih (r := r.pass unlimited s) fun a ha => ?_
    cases s with
    | shut => exact h a ha
    | record e =>
      rw [pass, record] at ha
      split_ifs at ha with hclosed
      · exact h a ha
      · rcases List.mem_append.1 ha with ha | ha
        · exact h a ha
        · rw [List.mem_singleton.1 ha]
          rfl

lemma entriesBefore_observe (c : Chunk) (ss : List Section) :
    entriesBefore ((Call.observe c).sections ++ ss) =
      (if c.data.isEmpty then [] else [c.entry]) ++ entriesBefore ss := by
  rw [Call.sections]
  cases c.data.isEmpty <;> rfl

/-- An entry for each chunk with bytes, and then the end of the session. -/
lemma Recorder.entries_ofSession (cs : List Chunk) (finish : Int) :
    (ofSession cs finish).entries =
      (cs.flatMap fun c => if c.data.isEmpty then [] else [c.entry]) ++
        [{ time := finish, fd := 0, closed := true }] := by
  rw [ofSession, foldl_perform, entries_passAll_unlimited (by simp), handed_passAll _ rfl]
  change [] ++ entriesBefore _ = _
  rw [List.nil_append]
  induction cs with
  | nil => rfl
  | cons c cs ih =>
    rw [List.map_cons, List.cons_append, List.flatMap_cons, entriesBefore_observe, ih,
      List.flatMap_cons, List.append_assoc]

/-- What is shown of the entries of a session is shown of its chunks. -/
lemma flatMap_entries_ofSession {f : Bytes → Bytes} (hf : f [] = []) (cs : List Chunk)
    (finish : Int) :
    ((Recorder.ofSession cs finish).entries.flatMap fun e => f e.shown) =
      cs.flatMap fun c => f c.shown := by
  have hmark : f (Entry.shown { time := finish, fd := 0, closed := true }) = [] := hf
  rw [Recorder.entries_ofSession, List.flatMap_append, List.flatMap_assoc, List.flatMap_singleton,
    hmark, List.append_nil]
  refine List.flatMap_congr fun c _ => ?_
  cases hempty : c.data.isEmpty with
  | true =>
    have hshown : c.shown = [] := by
      rw [Chunk.shown, Chunk.entry, Entry.shown, List.isEmpty_iff.1 hempty, ite_self]
    rw [hshown, hf]
    rfl
  | false => exact List.flatMap_singleton _ _

/-! ### Binary records -/

lemma Uml.shown_kept (e : Entry) : (Uml.kept e).shown = e.shown := by
  rw [Entry.shown, Entry.shown, Uml.kept, Uml.collapsed]
  cases e.closed <;> by_cases hfd : e.fd = 0 <;> simp [hfd]

/-- Binary records show what the session showed, if the length of every chunk fits the header. -/
lemma display_record_uml {cs : List Chunk} (h : ∀ c ∈ cs, c.data.length < 2 ^ 31) (finish : Int) :
    Format.uml.display (Format.uml.record cs finish) = cs.flatMap Chunk.shown := by
  have hentries : ∀ e ∈ (Recorder.ofSession cs finish).entries,
      e.closed = false → e.data.length < 2 ^ 31 := by
    intro e he hopen
    rw [Recorder.entries_ofSession, List.mem_append, List.mem_flatMap, List.mem_singleton] at he
    rcases he with ⟨c, hc, he⟩ | rfl
    · cases hempty : c.data.isEmpty with
      | true => simp [hempty] at he
      | false =>
        rw [hempty, if_neg Bool.false_ne_true, List.mem_singleton] at he
        rw [he]
        exact h c hc
    · cases hopen
  rw [Format.display_eq, Format.record, Format.write_eq, Format.read,
    Uml.read_bytes hentries none, List.flatMap_map]
  simp only [Uml.shown_kept]
  exact flatMap_entries_ofSession (f := id) rfl cs finish

/-! ### Lines of JSON -/

/-- A text as it is read back: once replaced when it is written, and once when it is read. -/
def cleaned (s : Bytes) : Bytes := Utf8.sanitize (Utf8.sanitize s)

lemma cleaned_nil : cleaned [] = [] := by decide +kernel

lemma cleaned_of_isValid {s : Bytes} (h : Utf8.isValid s = true) : cleaned s = s := by
  rw [cleaned, Utf8.sanitize_of_isValid h, Utf8.sanitize_of_isValid h]

lemma length_le_cleaned (s : Bytes) : s.length ≤ (cleaned s).length :=
  (Utf8.length_le_sanitize s).trans (Utf8.length_le_sanitize _)

lemma length_lt_cleaned {s : Bytes} (h : Utf8.isValid s = false) :
    s.length < (cleaned s).length :=
  (Utf8.length_lt_sanitize h).trans_le (Utf8.length_le_sanitize _)

lemma Asciicast.shown_kept {e : Entry} (h : e.closed = false) (start : Int) :
    (Asciicast.kept start e).shown = cleaned e.shown := by
  rw [Entry.shown, Entry.shown, Asciicast.kept, h]
  by_cases hfd : e.fd = 0
  · simp [hfd, cleaned_nil]
  · simp [hfd, cleaned]

lemma shown_of_closed {e : Entry} (h : e.closed = true) : e.shown = [] := by
  rw [Entry.shown, h, Bool.true_or, if_pos rfl]

lemma flatMap_shown_kept (start : Int) (es : List Entry) :
    ((es.filter fun e => !e.closed).flatMap fun e => (Asciicast.kept start e).shown) =
      es.flatMap fun e => cleaned e.shown := by
  induction es with
  | nil => rfl
  | cons e es ih =>
    cases hclosed : e.closed with
    | true =>
      rw [List.filter_cons_of_neg (by simp [hclosed]), List.flatMap_cons,
        shown_of_closed hclosed, cleaned_nil, ih, List.nil_append]
    | false =>
      rw [List.filter_cons_of_pos (by simp [hclosed]), List.flatMap_cons, List.flatMap_cons,
        Asciicast.shown_kept hclosed, ih]

lemma display_write_asciicast (es : List Entry) :
    Format.asciicast.display (Format.asciicast.write es) =
      es.flatMap fun e => cleaned e.shown := by
  rw [Format.display_eq, Format.write_eq, Format.read]
  cases es with
  | nil => rfl
  | cons e es => rw [Asciicast.read_bytes, List.flatMap_map, flatMap_shown_kept]

/-- Lines of JSON show every chunk with its stray bytes replaced. -/
lemma display_record_asciicast (cs : List Chunk) (finish : Int) :
    Format.asciicast.display (Format.asciicast.record cs finish) =
      cs.flatMap fun c => cleaned c.shown := by
  rw [Format.record, display_write_asciicast, flatMap_entries_ofSession cleaned_nil]

/-- A replaced byte shows in the length, so no chunk makes up for another. -/
lemma flatMap_cleaned_eq_iff (cs : List Chunk) :
    (cs.flatMap fun c => cleaned c.shown) = cs.flatMap Chunk.shown ↔
      ∀ c ∈ cs, Utf8.isValid c.shown = true := by
  constructor
  · intro h c hc
    by_contra hinvalid
    have hlength : (cs.map fun c => c.shown.length).sum <
        (cs.map fun c => (cleaned c.shown).length).sum :=
      List.sum_lt_sum _ _ (fun c _ => length_le_cleaned c.shown)
        ⟨c, hc, length_lt_cleaned (by simpa using hinvalid)⟩
    rw [← List.length_flatMap, ← List.length_flatMap, h] at hlength
    exact lt_irrefl _ hlength
  · intro h
    exact List.flatMap_congr fun c hc => cleaned_of_isValid (h c hc)

/-! ### Both formats -/

/-- Whatever chunks go through the streams of a session, its recording is played without a
fault.  Lines of JSON show what the session showed exactly if every chunk of it is text, and
binary records show it if the length of every chunk is below `2 ^ 31`. -/
theorem display_record_iff (cs : List Chunk) (finish : Int) :
    (∀ format : Format, (play format (format.record cs finish) (.display {})).2.1.isNone) ∧
    (Format.asciicast.display (Format.asciicast.record cs finish) = cs.flatMap Chunk.shown ↔
      ∀ c ∈ cs, Utf8.isValid c.shown = true) ∧
    ((∀ c ∈ cs, c.data.length < 2 ^ 31) →
      Format.uml.display (Format.uml.record cs finish) = cs.flatMap Chunk.shown) := by
  refine ⟨fun format => ?_, ?_, fun h => display_record_uml h finish⟩
  · rw [play_display, Format.record, Format.write_eq, fault_read_bytes]
    rfl
  · rw [display_record_asciicast, flatMap_cleaned_eq_iff]

/-- A character that two writes share is shown by binary records. -/
theorem display_record_iff_cut_character :
    Format.uml.display (Format.uml.record [⟨1, 1, [195]⟩, ⟨2, 0, [10]⟩, ⟨3, 1, [169]⟩] 4) =
      [195, 169] :=
  (display_record_iff _ 4).2.2 (by decide)

/-- Text that was shown is not always shown again: lines of JSON lose a character that two
writes share. -/
theorem cut_character_is_not_displayed :
    ¬ ∀ (format : Format) (cuts : List (Int × Bytes)) (finish : Int),
      Utf8.isValid (cuts.flatMap Prod.snd) = true →
        format.display (format.record (cuts.map fun c => ⟨c.1, 1, c.2⟩) finish) =
          cuts.flatMap Prod.snd := by
  intro h
  have hshown := h .asciicast [(1, [195]), (2, [169])] 3 (by decide +kernel)
  rw [display_record_asciicast] at hshown
  have hvalid := (flatMap_cleaned_eq_iff [⟨1, 1, [195]⟩, ⟨2, 1, [169]⟩]).1 hshown
  exact absurd (hvalid ⟨1, 1, [195]⟩ List.mem_cons_self) (by decide +kernel)

end Recording

end ConsoleShell
