/-
Lines of JSON read back.

The seconds of an event are a moderate double whatever its time, so the number on its line is
in range.  Every event takes exactly one line, and the line is read as an entry again, with the
data that it was written with if they are text.
-/
import ConsoleShell.Proofs.Json.Reading
import ConsoleShell.Proofs.Recording.Replay
import ConsoleShell.Proofs.Text.Splitting
import ConsoleShell.Proofs.Text.Utf8

namespace ConsoleShell

namespace Recording

namespace Asciicast

/-! ### Seconds -/

/-- Differences of times in seconds are far from the largest double. -/
lemma bounded_toSeconds {micros : Int} (h : micros.natAbs < 2 ^ 64) :
    (toSeconds micros).Bounded 9 := by
  have hmicros : (Double.ofInt micros).Bounded 15 :=
    (Double.bounded_ofInt h (by norm_num)).mono (by norm_num)
  have hthousand : (Double.ofInt 1000).Bounded (-43) :=
    ⟨false, 1000 * 2 ^ 43, -43, by decide +kernel, by norm_num, le_rfl⟩
  have hbillion : (Double.ofInt 1000000000).value =
      .finite false (1000000000 * 2 ^ 23) (-23) := by
    decide +kernel
  have hproduct : ((Double.ofInt micros).mul (.ofInt 1000)).Bounded 29 :=
    (hmicros.mul hthousand (j := 78) (by norm_num) (by norm_num)).mono (by norm_num)
  exact (hproduct.div hbillion (i := 52) (j := 53) (by norm_num) (by norm_num)
    (by norm_num)).mono (by norm_num)

/-! ### Events -/

/-- The seconds of an entry. -/
def seconds (start : Int) (e : Entry) : Double := toSeconds ((e.time - start).bmod (2 ^ 64))

/-- The value on the line of an entry. -/
def value (start : Int) (e : Entry) : Json :=
  .array [.number (seconds start e).toJson, .string (direction e.fd), .string e.data]

/-- The line of an entry without its end. -/
def text (start : Int) (e : Entry) : Bytes := (value start e).render style

/-- What is read back of an entry. -/
def kept (start : Int) (e : Entry) : Entry where
  time := toMicros ((Double.parseRounded? (seconds start e).toJson).getD (.zero false))
  fd := if e.fd = 0 then 0 else 1
  data := Utf8.sanitize (Utf8.sanitize e.data)

lemma event_eq (start : Int) (e : Entry) : event start e = (text start e).line := rfl

lemma exists_seconds (start : Int) (e : Entry) :
    ∃ t : NumberText, t.Valid ∧ t.Small ∧ (seconds start e).toJson = t.bytes := by
  refine (bounded_toSeconds ?_).exists_toJson
  have hlow := Int.le_bmod (x := e.time - start) (m := 2 ^ 64) (by norm_num)
  have hhigh := Int.bmod_lt (x := e.time - start) (m := 2 ^ 64) (by norm_num)
  norm_num at hlow hhigh ⊢
  omega

lemma wellFormed_value (start : Int) (e : Entry) : (value start e).WellFormed := by
  obtain ⟨t, ht, -, heq⟩ := exists_seconds start e
  exact ⟨⟨t, ht, heq⟩, trivial, trivial, trivial⟩

/-- The line of an entry is read as an entry. -/
lemma readLine_text (start : Int) (e : Entry) :
    readLine (text start e) = .ok (some (kept start e)) := by
  obtain ⟨t, ht, hsmall, heq⟩ := exists_seconds start e
  have hrange : allInRange (Json.itemsCleaned [.number (seconds start e).toJson,
      .string (direction e.fd), .string e.data]) = true := by
    simp [Json.itemsCleaned, Json.cleaned, allInRange, inRange, heq, Double.parse_small ht hsmall]
  have hentry (x : Double) (data : Bytes) :
      entryOf? x (Utf8.sanitize (Utf8.sanitize (direction e.fd))) data =
        some { time := toMicros x, fd := if e.fd = 0 then 0 else 1, data } := by
    by_cases hfd : e.fd = 0
    · have hkind : Utf8.sanitize (Utf8.sanitize (direction e.fd)) = "i" := by
        rw [direction, if_pos (by simpa using hfd)]
        decide +kernel
      rw [hkind, if_pos hfd]
      rfl
    · have hkind : Utf8.sanitize (Utf8.sanitize (direction e.fd)) = "o" := by
        rw [direction, if_neg (by simpa using hfd)]
        decide +kernel
      rw [hkind, if_neg hfd]
      rfl
  have hdepth : (value start e).depth ≤ Json.maxDepth := Nat.succ_le_succ (Nat.zero_le 9999)
  rw [readLine, text, Json.parse?_render style (wellFormed_value start e) hdepth, value,
    Json.cleaned]
  simp only [hrange]
  simp only [Json.itemsCleaned, Json.cleaned, hentry]
  rfl

/-! ### Lines -/

lemma newline_notMem_of_visible {s : Bytes} (h : s.Visible) : Ascii.newline ∉ s := by
  intro hmem
  exact absurd (h _ hmem) (by decide)

lemma fullLines_of_not_mem {s : Bytes} (h : Ascii.newline ∉ s) : fullLines s = [] := by
  rw [fullLines, Bytes.splitOn_of_not_mem h]
  rfl

lemma fullLines_line {s : Bytes} (h : Ascii.newline ∉ s) (t : Bytes) :
    fullLines (s.line ++ t) = s :: fullLines t := by
  rw [fullLines, Bytes.line, List.append_assoc, List.singleton_append, Bytes.splitOn_append h,
    List.dropLast_cons_of_ne_nil (Bytes.splitOn_ne_nil _ t), fullLines]

lemma fullLines_flatMap_line {ls : List Bytes} (h : ∀ l ∈ ls, Ascii.newline ∉ l) :
    fullLines (ls.flatMap Bytes.line) = ls := by
  induction ls with
  | nil => exact fullLines_of_not_mem List.not_mem_nil
  | cons l ls ih =>
    obtain ⟨hl, hls⟩ := List.forall_mem_cons.1 h
    rw [List.flatMap_cons, fullLines_line hl, ih hls]

lemma newline_notMem_text (start : Int) (e : Entry) : Ascii.newline ∉ text start e :=
  newline_notMem_of_visible (Json.visible_render style _ (wellFormed_value start e))

/-- The lines of the entries that are no end of the session. -/
def texts (start : Int) (es : List Entry) : List Bytes :=
  (es.filter fun e => !e.closed).map (text start)

lemma newline_notMem_texts (start : Int) (es : List Entry) :
    ∀ l ∈ texts start es, Ascii.newline ∉ l :=
  List.forall_mem_map.2 fun e _ => newline_notMem_text start e

/-- A recording goes on with one line for each entry that is no end of the session. -/
lemma bytes_eq_texts (start : Int) (es : List Entry) :
    Format.bytes .asciicast (some start) es = (texts start es).flatMap Bytes.line := by
  induction es with
  | nil => rfl
  | cons e es ih =>
    rw [Format.bytes, Format.pieces]
    cases hclosed : e.closed with
    | true => simpa [texts, hclosed] using ih
    | false => simpa [texts, hclosed, event_eq] using ih

/-- The first line of a recording describes the terminal. -/
lemma exists_header (start : Int) : ∃ s : Bytes, header start = s.line ∧ Ascii.newline ∉ s := by
  refine ⟨_, rfl, newline_notMem_of_visible (Json.visible_render style _ ?_)⟩
  exact ⟨⟨trivial, trivial, trivial⟩, Json.wellFormed_ofNat 24,
    Json.wellFormed_ofInt (start / 1000000), trivial, Json.wellFormed_ofNat 2,
    Json.wellFormed_ofNat 80, trivial⟩

/-! ### Recordings -/

lemma bytes_cons (e : Entry) (es : List Entry) :
    Format.bytes .asciicast none (e :: es) =
      header e.time ++ Format.bytes .asciicast (some e.time) (e :: es) := by
  simp [Format.bytes, Format.pieces]

lemma readLines_text (start : Int) (es : List Entry) :
    readLines (es.map (text start)) = (es.map (kept start), none) := by
  induction es with
  | nil => rfl
  | cons e es ih =>
    have hne : (text start e).isEmpty = false := rfl
    rw [List.map_cons, readLines, hne, readLine_text, ih]
    rfl

/-- A recording is read back entry by entry, but for the end of the session. -/
lemma read_bytes (e : Entry) (es : List Entry) :
    read (Format.bytes .asciicast none (e :: es)) =
      (((e :: es).filter fun e => !e.closed).map (kept e.time), none) := by
  obtain ⟨s, hheader, hs⟩ := exists_header e.time
  rw [read, bytes_cons, hheader, fullLines_line hs, bytes_eq_texts,
    fullLines_flatMap_line (newline_notMem_texts e.time (e :: es)), List.tail_cons, texts,
    readLines_text]

/-! ### What is preserved -/

/-- Text is read back as it was written. -/
lemma data_kept {e : Entry} (h : Utf8.isValid e.data = true) (start : Int) :
    (kept start e).data = e.data := by
  rw [kept, Utf8.sanitize_of_isValid h, Utf8.sanitize_of_isValid h]

/-- An entry without its time, which goes through floating point. -/
def untimed (e : Entry) : Entry := { e with time := 0 }

/-- What the format tells of an entry that is no end of the session, its time apart. -/
def told (e : Entry) : Entry where
  time := 0
  fd := if e.fd = 0 then 0 else 1
  data := e.data

/-- Recorded text is replayed as it was, but for the end of the session and the difference
between the output streams.  Whatever the data, a recording is its header and one line for each
event, and the end of a session adds nothing beyond the header. -/
theorem replay_keeps_text :
    (∀ es : List Entry, (∀ e ∈ es, e.closed = false → Utf8.isValid e.data = true) →
      (replay .asciicast (Format.write .asciicast es)).2 = none ∧
        (replay .asciicast (Format.write .asciicast es)).1.map untimed =
          (es.filter fun e => !e.closed).map told) ∧
    (∀ (e : Entry) (es : List Entry), ∃ (first : Bytes) (lines : List Bytes),
      (∀ l ∈ first :: lines, Ascii.newline ∉ l) ∧ first.line = header e.time ∧
        lines.map Bytes.line = ((e :: es).filter fun e => !e.closed).map (event e.time) ∧
        Format.write .asciicast (e :: es) = (first :: lines).flatMap Bytes.line) ∧
    ∀ (es : List Entry) (e : Entry), e.closed = true →
      Format.write .asciicast (es ++ [e]) =
        if es = [] then header e.time else Format.write .asciicast es := by
  refine ⟨fun es h => ?_, fun e es => ?_, fun es e he => ?_⟩
  · cases es with
    | nil => exact ⟨rfl, rfl⟩
    | cons e es =>
      rw [replay_eq, Format.write_eq, Format.read, read_bytes]
      refine ⟨rfl, ?_⟩
      rw [List.map_map]
      refine List.map_congr_left fun x hx => ?_
      obtain ⟨hmem, hopen⟩ := List.mem_filter.1 hx
      have hdata := data_kept (h x hmem (by simpa using hopen)) e.time
      rw [Function.comp_apply, untimed, hdata]
      rfl
  · obtain ⟨first, hheader, hfirst⟩ := exists_header e.time
    refine ⟨first, texts e.time (e :: es), ?_, hheader.symm, ?_, ?_⟩
    · exact List.forall_mem_cons.2 ⟨hfirst, newline_notMem_texts e.time (e :: es)⟩
    · rw [texts, List.map_map]
      rfl
    · rw [Format.write_eq, bytes_cons, bytes_eq_texts, hheader, List.flatMap_cons]
  · cases es with
    | nil => simp [Format.write_eq, Format.bytes, Format.pieces, he]
    | cons x es =>
      have htexts : texts x.time (x :: es ++ [e]) = texts x.time (x :: es) := by
        simp [texts, List.filter_cons, he]
      rw [if_neg (List.cons_ne_nil x es), Format.write_eq, Format.write_eq, List.cons_append,
        bytes_cons, bytes_cons, bytes_eq_texts, bytes_eq_texts, ← List.cons_append, htexts]

/-- A session that is over before it begins, and then a line with everything that is escaped:
a quote, a backslash, markup, a newline and a line separator. -/
theorem replay_keeps_text_escaped :
    (replay .asciicast (Format.write .asciicast [⟨3000000, 0, [], true⟩,
        ⟨1000000, 2, [34, 92, 60, 38, 62, 10, 226, 128, 168, 0], false⟩,
        ⟨4500000, 0, [240, 159, 154, 128], false⟩])).1.map untimed =
      [⟨0, 1, [34, 92, 60, 38, 62, 10, 226, 128, 168, 0], false⟩,
        ⟨0, 0, [240, 159, 154, 128], false⟩] :=
  (replay_keeps_text.1 _ (by decide +kernel)).2

end Asciicast

end Recording

end ConsoleShell
