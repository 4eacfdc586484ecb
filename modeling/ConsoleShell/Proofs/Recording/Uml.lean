/-
Binary records read back.

Every field of a header is a word of 32 bits and is read back modulo `2 ^ 32`.  A record whose
length field is the length of its data is followed by the next record where the reader looks
for it, so the recording of a list of entries is read back entry by entry.
-/
import ConsoleShell.Proofs.Recording.Replay

namespace ConsoleShell

namespace Recording

namespace Uml

/-! ### Words and headers -/

lemma word?_word (n : Nat) (s : Bytes) : word? (word n ++ s) = some (n % 2 ^ 32, s) := by
  have hbyte (m : Nat) : m.toUInt8.toNat = m % 256 := UInt8.toNat_ofNat'
  have hsplit : n % 2 ^ 32 =
      n % 256 + n / 256 % 256 * 256 + n / 65536 % 256 * 65536 + n / 16777216 % 256 * 16777216 := by
    rw [show (2 : Nat) ^ 32 = 256 * (256 * (256 * 256)) by norm_num, Nat.mod_mul, Nat.mod_mul,
      Nat.mod_mul, Nat.div_div_eq_div_mul, Nat.div_div_eq_div_mul]
    ring
  have hvalue : ofWord n.toUInt8 (n / 256).toUInt8 (n / 65536).toUInt8 (n / 16777216).toUInt8 =
      n % 2 ^ 32 := by
    rw [ofWord, hbyte, hbyte, hbyte, hbyte, hsplit]
  simp [word?, word, hvalue]

namespace Header

/-- The header that is read back. -/
def wrapped (h : Header) : Header where
  operation := h.operation % 2 ^ 32
  terminal := h.terminal % 2 ^ 32
  size := h.size % 2 ^ 32
  direction := h.direction % 2 ^ 32
  seconds := h.seconds % 2 ^ 32
  micros := h.micros % 2 ^ 32

lemma read?_bytes (h : Header) (s : Bytes) : read? (h.bytes ++ s) = some (h.wrapped, s) := by
  simp [read?, bytes, List.append_assoc, word?_word, wrapped]

end Header

lemma low_lt (n : Int) : low n < 2 ^ 32 := by
  rw [low]
  omega

/-- The headers of entries are read back as they are. -/
lemma wrapped_header (e : Entry) : (header e).wrapped = header e := by
  have hseconds := low_lt (e.time.tdiv 1000000)
  have hmicros := low_lt (e.time.tmod 1000000)
  rw [Header.wrapped, header, Header.mk.injEq]
  refine ⟨?_, rfl, ?_, ?_, Nat.mod_eq_of_lt hseconds, Nat.mod_eq_of_lt hmicros⟩
  · cases e.closed <;> rfl
  · cases e.closed <;> simp
  · cases e.fd == 0 <;> rfl

/-! ### One entry -/

/-- An entry without what the format does not tell: all output is one stream, and the end of the
session has no data. -/
def collapsed (e : Entry) : Entry where
  time := e.time
  fd := if e.fd = 0 then 0 else 1
  data := if e.closed then [] else e.data
  closed := e.closed

/-- What is read back of an entry: its time is that of the header. -/
def kept (e : Entry) : Entry := { collapsed e with time := (header e).time }

lemma read_of_none {s : Bytes} (h : Header.read? s = none) : read s = [] := by
  rw [read.eq_def]
  split
  · rfl
  · rename_i hsome
    rw [h] at hsome
    cases hsome

lemma read_of_some {s rest : Bytes} {h : Header} (hs : Header.read? s = some (h, rest)) :
    read s =
      if rest.length < h.dataLength then []
      else (entryOf? h (rest.take h.dataLength)).toList ++ read (rest.drop h.dataLength) := by
  rw [read.eq_def]
  split
  · rename_i hnone
    rw [hs] at hnone
    cases hnone
  · rename_i hsome
    rw [hs] at hsome
    obtain ⟨rfl, rfl⟩ := Prod.mk.inj (Option.some.inj hsome)
    rfl

lemma read_append {h : Header} {data : Bytes} (hsize : h.wrapped.dataLength = data.length)
    (s : Bytes) :
    read (h.bytes ++ data ++ s) = (entryOf? h.wrapped data).toList ++ read s := by
  rw [List.append_assoc, read_of_some (Header.read?_bytes h (data ++ s)), hsize,
    if_neg (by simp), List.take_left, List.drop_left]

/-- An entry is read back from the front of a recording, and the rest after it. -/
lemma read_pieces {e : Entry} (h : e.closed = false → e.data.length < 2 ^ 31) (s : Bytes) :
    read ((pieces e).flatten ++ s) = kept e :: read s := by
  let data := if e.closed then [] else e.data
  have hpieces : (pieces e).flatten = (header e).bytes ++ data := by
    cases hclosed : e.closed <;> cases hdata : e.data <;> simp [pieces, data, hclosed, hdata]
  have hsize : (header e).wrapped.dataLength = data.length := by
    rw [wrapped_header, Header.dataLength]
    cases hclosed : e.closed with
    | true => simp [header, data, hclosed]
    | false =>
      have hlt := h hclosed
      have hmod : (header e).size = e.data.length := by
        simp only [header, hclosed, Bool.false_eq_true, if_false]
        omega
      rw [hmod, if_pos hlt]
      simp [data, hclosed]
  have hentry : entryOf? (header e) data = some (kept e) := by
    cases hclosed : e.closed <;> by_cases hfd : e.fd = 0 <;>
      simp [entryOf?, kept, collapsed, data, header, Header.fd, Header.time, hclosed, hfd]
  rw [hpieces, read_append hsize, wrapped_header, hentry]
  rfl

/-- The time of an entry is kept exactly if its seconds fit 32 bits. -/
lemma time_header_eq_iff (e : Entry) :
    (header e).time = e.time ↔ 0 ≤ e.time ∧ e.time < 2 ^ 32 * 10 ^ 6 := by
  rcases lt_or_ge e.time 0 with hneg | hpos
  · -- what is read back is never negative
    have hnonneg : 0 ≤ (header e).time := by
      rw [Header.time]
      positivity
    exact iff_of_false (by omega) (by omega)
  · have hlow (n : Int) : (low n : Int) = n % 2 ^ 32 :=
      Int.toNat_of_nonneg (Int.emod_nonneg n (by norm_num))
    have hmicros : 0 ≤ e.time % 1000000 := Int.emod_nonneg e.time (by norm_num)
    have hmicros' : e.time % 1000000 < 1000000 := Int.emod_lt_of_pos e.time (by norm_num)
    have hseconds : 0 ≤ e.time / 1000000 := Int.ediv_nonneg hpos (by norm_num)
    have hdiv := Int.mul_ediv_add_emod e.time 1000000
    simp only [Header.time, header, Int.tdiv_eq_ediv_of_nonneg hpos,
      Int.tmod_eq_emod_of_nonneg hpos, hlow]
    generalize e.time / 1000000 = q at *
    generalize e.time % 1000000 = r at *
    omega

/-! ### Recordings -/

lemma read_bytes {es : List Entry} (h : ∀ e ∈ es, e.closed = false → e.data.length < 2 ^ 31)
    (start : Option Int) : read (Format.bytes .uml start es) = es.map kept := by
  induction es generalizing start with
  | nil => exact read_of_none rfl
  | cons e es ih =>
    obtain ⟨he, hes⟩ := List.forall_mem_cons.1 h
    rw [Format.bytes, Format.pieces, read_pieces he, ih hes, List.map_cons]

/-- A recording of entries whose data have less than `2 ^ 31` bytes and whose times are before
the seconds leave 32 bits is replayed as it was, but for what the format does not tell.  The
time of an entry survives only within these bounds. -/
theorem replay_write :
    (∀ es : List Entry,
      (∀ e ∈ es, e.data.length < 2 ^ 31 ∧ 0 ≤ e.time ∧ e.time < 2 ^ 32 * 10 ^ 6) →
      replay .uml (Format.write .uml es) = (es.map collapsed, none)) ∧
    ∀ e : Entry, e.data.length < 2 ^ 31 →
      ((replay .uml (Format.write .uml [e])).1.map Entry.time = [e.time] ↔
        0 ≤ e.time ∧ e.time < 2 ^ 32 * 10 ^ 6) := by
  constructor
  · intro es h
    have hkept : es.map kept = es.map collapsed := by
      refine List.map_congr_left fun e he => ?_
      rw [kept, (time_header_eq_iff e).2 (h e he).2]
      rfl
    rw [replay_eq, Format.write_eq, Format.read, read_bytes fun e he _ => (h e he).1, hkept]
    rfl
  · intro e h
    have hread : read (Format.bytes .uml none [e]) = [kept e] :=
      read_bytes (by simpa using fun _ => h) none
    rw [replay_eq, Format.write_eq, Format.read, hread, ← time_header_eq_iff]
    simp [kept]

/-- A word that was typed, a complaint and the end of the session. -/
theorem replay_write_session :
    replay .uml (Format.write .uml [⟨1500000, 0, [108, 115], false⟩, ⟨2000000, 2, [63], false⟩,
        ⟨4294967295999999, 0, [], true⟩]) =
      ([⟨1500000, 0, [108, 115], false⟩, ⟨2000000, 1, [63], false⟩,
        ⟨4294967295999999, 0, [], true⟩], none) :=
  replay_write.1 _ (by decide)

end Uml

end Recording

end ConsoleShell
