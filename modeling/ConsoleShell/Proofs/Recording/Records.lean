/-
Records of any recording.

Any text is a recording: complete records from its front, and then a record that is cut short or
nothing.  What is replayed are the entries of the complete records, and the replay ends without a
fault wherever the text ends.  Records of other operations are passed over with their data, so the
records after them are found where they begin.
-/
import ConsoleShell.Proofs.Recording.Uml

namespace ConsoleShell

namespace Recording

namespace Uml

/-! ### Records -/

/-- The number that a header has in the four bytes at a place, the lowest byte first. -/
def field (head : Bytes) (place : Nat) : Nat :=
  Nat.ofDigits 256 (((head.drop place).take 4).map UInt8.toNat)

/-- The number of bytes of data that a header announces, which may be negative. -/
def announced (head : Bytes) : Int := Int.bmod (field head 8) (2 ^ 32)

/-- A header and the data after it. -/
structure Record where
  head : Bytes
  data : Bytes
  deriving DecidableEq, Repr

/-- The entry of a record: an end of the session or data in one direction.  Records of other
operations have none. -/
def Record.entry? (r : Record) : Option Entry :=
  let time : Int := field r.head 16 * 10 ^ 6 + field r.head 20
  let fd : Int := if field r.head 12 = 1 then 0 else 1
  if field r.head 0 = 2 then some { time, fd, closed := true }
  else if field r.head 0 = 3 then some { time, fd, data := r.data }
  else none

/-- A text is cut into its complete records.  They end before a header that is cut short and
before a record whose data are. -/
inductive Cuts : Bytes → List Record → Prop where
  | head {s : Bytes} (short : s.length < 24) : Cuts s []
  | data {head s : Bytes} (full : head.length = 24) (short : (s.length : Int) < announced head) :
      Cuts (head ++ s) []
  | record {head data s : Bytes} {rs : List Record} (full : head.length = 24)
      (size : (data.length : Int) = max (announced head) 0) (rest : Cuts s rs) :
      Cuts (head ++ data ++ s) (⟨head, data⟩ :: rs)

/-! ### Headers -/

/-- The header in 24 bytes. -/
def headerOf (head : Bytes) : Header where
  operation := field head 0
  terminal := field head 4
  size := field head 8
  direction := field head 12
  seconds := field head 16
  micros := field head 20

lemma word?_drop {head : Bytes} {place : Nat} (h : place + 4 ≤ head.length) (s : Bytes) :
    word? (head.drop place ++ s) = some (field head place, head.drop (place + 4) ++ s) := by
  have hlength : 4 ≤ (head.drop place).length := by
    rw [List.length_drop]
    omega
  rw [field, ← List.drop_drop]
  match head.drop place, hlength with
  | a :: b :: c :: d :: w, _ =>
    simp [word?, ofWord, Nat.ofDigits_cons]
    omega

lemma read?_append_of_length {head : Bytes} (h : head.length = 24) (s : Bytes) :
    Header.read? (head ++ s) = some (headerOf head, s) := by
  have hword (place : Nat) (hplace : place + 4 ≤ 24) :
      word? (head.drop place ++ s) = some (field head place, head.drop (place + 4) ++ s) :=
    word?_drop (h ▸ hplace) s
  have hend : head.drop 24 ++ s = s := by
    rw [List.drop_of_length_le (by omega), List.nil_append]
  have hfirst := hword 0 (by norm_num)
  rw [List.drop_zero] at hfirst
  simp [Header.read?, hfirst, hword, hend, headerOf]

lemma read?_eq_none_of_lt {s : Bytes} (h : s.length < 24) : Header.read? s = none := by
  cases hr : Header.read? s with
  | none => rfl
  | some p =>
    have hlength := Header.length_of_read? hr
    simp only [headerLength] at hlength
    omega

lemma field_lt (head : Bytes) (place : Nat) : field head place < 2 ^ 32 := by
  have hdigits (w : Bytes) : Nat.ofDigits 256 (w.map UInt8.toNat) < 256 ^ w.length := by
    have hlt := Nat.ofDigits_lt_base_pow_length (b := 256) (l := w.map UInt8.toNat) (by norm_num)
      fun d hd => by
        obtain ⟨b, _, rfl⟩ := List.mem_map.1 hd
        exact b.toNat_lt
    rwa [List.length_map] at hlt
  have hle : 256 ^ ((head.drop place).take 4).length ≤ 256 ^ 4 :=
    Nat.pow_le_pow_right (by norm_num) (List.length_take_le _ _)
  exact (hdigits _).trans_le hle

lemma signedSize_headerOf (head : Bytes) : (headerOf head).signedSize = announced head := by
  have hbmod (n : Nat) (hn : n < 2 ^ 32) :
      (n : Int).bmod (2 ^ 32) = if n < 2 ^ 31 then (n : Int) else n - 2 ^ 32 := by
    rw [Int.bmod_def]
    split <;> omega
  exact (hbmod _ (field_lt head 8)).symm

lemma dataLength_headerOf (head : Bytes) :
    (headerOf head).dataLength = (announced head).toNat := by
  rw [← signedSize_headerOf, Header.signedSize, Header.dataLength]
  have hlt : (headerOf head).size < 2 ^ 32 := field_lt head 8
  split <;> omega

lemma entryOf?_headerOf (head data : Bytes) :
    entryOf? (headerOf head) data = Record.entry? ⟨head, data⟩ := by
  rfl

/-! ### Steps of the readers -/

lemma takeHeader_append {head : Bytes} (h : head.length = 24) (s : Bytes) :
    takeHeader (head ++ s) = .ok (headerOf head, s) := by
  rw [takeHeader, read?_append_of_length h]

lemma copy_append {n : Int} {data : Bytes} (h : (data.length : Int) = max n 0) (s : Bytes) :
    copy n (data ++ s) = .ok (data, s) := by
  have hlength : n.toNat = data.length := by omega
  have hle : ¬(data.length : Int) < n := by omega
  simp [copy, List.splitAt_eq, hlength, hle]

lemma copy_of_lt {n : Int} {s : Bytes} (h : (s.length : Int) < n) : copy n s = .error .ended := by
  have hle : s.length ≤ n.toNat := by omega
  simp [copy, List.splitAt_eq, List.take_of_length_le hle, h]

lemma next_eq (s : Bytes) :
    next s = match takeHeader s with
      | .error _ => .error .ended
      | .ok (h, rest) => match copy h.signedSize rest with
        | .error fault => .error fault
        | .ok (data, rest) => (entryOf? h data).elim (next rest) fun e => .ok (e, rest) := by
  rw [next.eq_def]
  split
  · next hhead => rw [hhead]
  · next hhead =>
    rw [hhead]
    split
    · next hdata => simp only [hdata]
    · next hdata =>
      simp only [hdata]
      split
      · next hentry => rw [hentry]; rfl
      · next hentry => rw [hentry]; rfl

lemma deliver_eq (s : Bytes) :
    deliver s = match next s with
      | .error .ended => ([], none)
      | .error fault => ([], some fault)
      | .ok (e, rest) => (e :: (deliver rest).1, (deliver rest).2) := by
  rw [deliver.eq_def]
  split <;> next h => simp only [h]

/-- A recording without a complete header at its front has ended. -/
lemma next_of_head {s : Bytes} (h : s.length < 24) : next s = .error .ended := by
  rw [next_eq, takeHeader, read?_eq_none_of_lt h]

lemma next_of_data {head s : Bytes} (h : head.length = 24)
    (hs : (s.length : Int) < announced head) : next (head ++ s) = .error .ended := by
  rw [next_eq, takeHeader_append h]
  simp only [signedSize_headerOf, copy_of_lt hs]

/-- A record is read from the front of any text. -/
lemma next_of_record {head data : Bytes} (h : head.length = 24)
    (hdata : (data.length : Int) = max (announced head) 0) (s : Bytes) :
    next (head ++ data ++ s) =
      (Record.entry? ⟨head, data⟩).elim (next s) fun e => .ok (e, s) := by
  rw [List.append_assoc, next_eq, takeHeader_append h]
  simp only [signedSize_headerOf, copy_append hdata, entryOf?_headerOf]

lemma deliver_of_ended {s : Bytes} (h : next s = .error .ended) : deliver s = ([], none) := by
  rw [deliver_eq, h]

lemma deliver_of_record {head data : Bytes} (h : head.length = 24)
    (hdata : (data.length : Int) = max (announced head) 0) (s : Bytes) :
    deliver (head ++ data ++ s) =
      ((Record.entry? ⟨head, data⟩).toList ++ (deliver s).1, (deliver s).2) := by
  have hnext := next_of_record h hdata s
  cases hentry : Record.entry? ⟨head, data⟩ with
  | some e =>
    rw [hentry] at hnext
    rw [deliver_eq, hnext]
    rfl
  | none =>
    -- the reader goes on to the record after this one
    have hskip : next (head ++ data ++ s) = next s := by
      rw [hnext, hentry]
      rfl
    rw [deliver_eq, hskip, ← deliver_eq]
    rfl

lemma read_of_record {head data : Bytes} (h : head.length = 24)
    (hdata : (data.length : Int) = max (announced head) 0) (s : Bytes) :
    read (head ++ data ++ s) = (Record.entry? ⟨head, data⟩).toList ++ read s := by
  have hlength : (headerOf head).dataLength = data.length := by
    rw [dataLength_headerOf]
    omega
  rw [List.append_assoc, read_of_some (read?_append_of_length h _), hlength,
    if_neg (by simp), List.take_left, List.drop_left, entryOf?_headerOf]

lemma read_of_data {head s : Bytes} (h : head.length = 24)
    (hs : (s.length : Int) < announced head) : read (head ++ s) = [] := by
  rw [read_of_some (read?_append_of_length h s), dataLength_headerOf, if_pos (by omega)]

/-! ### Any text -/

lemma exists_append_of_le {s : Bytes} {n : Nat} (h : n ≤ s.length) :
    ∃ front rest, s = front ++ rest ∧ front.length = n :=
  ⟨s.take n, s.drop n, (List.take_append_drop n s).symm, List.length_take_of_le h⟩

lemma exists_cuts (s : Bytes) : ∃ rs, Cuts s rs := by
  -- a record without data takes 24 bytes, so what follows a record is shorter in any case
  induction hn : s.length using Nat.strong_induction_on generalizing s with
  | _ n ih =>
    subst hn
    rcases lt_or_ge s.length 24 with hshort | hfull
    · exact ⟨[], .head hshort⟩
    obtain ⟨head, rest, rfl, hhead⟩ := exists_append_of_le hfull
    rcases lt_or_ge (rest.length : Int) (announced head) with hshort | hle
    · exact ⟨[], .data hhead hshort⟩
    obtain ⟨data, rest, rfl, hdata⟩ :=
      exists_append_of_le (s := rest) (n := (announced head).toNat) (by omega)
    obtain ⟨rs, hrs⟩ := ih rest.length (by simp only [List.length_append]; omega) rest rfl
    rw [← List.append_assoc]
    exact ⟨⟨head, data⟩ :: rs, .record hhead (by omega) hrs⟩

/-- There is only one way to cut a text into records. -/
lemma Cuts.unique {s : Bytes} {rs rs' : List Record} (h : Cuts s rs) (h' : Cuts s rs') :
    rs' = rs := by
  -- both cuts have the same header in front, which tells how far the record goes
  induction h generalizing rs' with
  | head short =>
    cases h' with
    | head => rfl
    | data full => simp at short; omega
    | record full => simp at short; omega
  | @data head s full short =>
    generalize hs : head ++ s = t at h'
    cases h' with
    | head | data => rfl
    | record full' size' =>
      rw [List.append_assoc] at hs
      obtain ⟨rfl, rfl⟩ := List.append_inj hs (full.trans full'.symm)
      simp at short
      omega
  | @record head data s rs full size rest ih =>
    generalize ht : head ++ data ++ s = t at h'
    cases h' with
    | head short =>
      subst ht
      simp at short
      omega
    | data full' short' =>
      rw [List.append_assoc] at ht
      obtain ⟨rfl, rfl⟩ := List.append_inj ht (full.trans full'.symm)
      simp at short'
      omega
    | @record head' data' s' rs' full' size' rest' =>
      rw [List.append_assoc, List.append_assoc] at ht
      obtain ⟨rfl, hrest⟩ := List.append_inj ht (full.trans full'.symm)
      obtain ⟨rfl, rfl⟩ := List.append_inj hrest (by omega)
      rw [ih rest']

/-- What both readers find in a text are the entries of its records. -/
lemma Cuts.read_and_deliver {s : Bytes} {rs : List Record} (h : Cuts s rs) :
    read s = rs.filterMap Record.entry? ∧ deliver s = (rs.filterMap Record.entry?, none) := by
  induction h with
  | head short =>
    exact ⟨read_of_none (read?_eq_none_of_lt short), deliver_of_ended (next_of_head short)⟩
  | data full short => exact ⟨read_of_data full short, deliver_of_ended (next_of_data full short)⟩
  | @record head data s rs full size _ ih =>
    have hentries : (Record.mk head data :: rs).filterMap Record.entry? =
        (Record.entry? ⟨head, data⟩).toList ++ rs.filterMap Record.entry? := by
      rw [List.filterMap_cons]
      cases Record.entry? ⟨head, data⟩ <;> rfl
    rw [read_of_record full size, deliver_of_record full size, ih.1, ih.2, hentries]
    exact ⟨rfl, rfl⟩

/-- **Any text is replayed to its end.**  A text is cut into complete records in exactly one way:
headers of 24 bytes, each with as many bytes of data as it announces, and none if that is a
negative number.  Replaying it, as a whole or one entry at a time, hands on the entries of these
records in order and ends without a fault. -/
theorem replay_cuts (s : Bytes) :
    ∃ rs, Cuts s rs ∧ (∀ rs', Cuts s rs' → rs' = rs) ∧
      replay .uml s = (rs.filterMap Record.entry?, none) ∧
      deliver s = (rs.filterMap Record.entry?, none) := by
  obtain ⟨rs, hcuts⟩ := exists_cuts s
  obtain ⟨hread, hdeliver⟩ := hcuts.read_and_deliver
  refine ⟨rs, hcuts, fun rs' h => hcuts.unique h, ?_, hdeliver⟩
  rw [replay_eq, Format.read, hread]
  rfl

end Uml

end Recording

end ConsoleShell
