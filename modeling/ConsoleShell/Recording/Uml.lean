/-
Recordings as binary records.

A record is a header of six words of 32 bits, the lowest byte first, and data: the
operation, the number of the terminal, the length of the data, the direction, and the time
in seconds and microseconds.
-/
import ConsoleShell.Recording.Entry

namespace ConsoleShell

namespace Recording

namespace Uml

/-- A word of 32 bits, the lowest byte first. -/
def word (n : Nat) : Bytes :=
  [n.toUInt8, (n / 256).toUInt8, (n / 65536).toUInt8, (n / 16777216).toUInt8]

/-- The word that four bytes stand for. -/
def ofWord (a b c d : UInt8) : Nat := a.toNat + b.toNat * 256 + c.toNat * 65536 + d.toNat * 16777216

/-- The word at the front of a text, and what follows it. -/
def word? : Bytes → Option (Nat × Bytes)
  | a :: b :: c :: d :: s => some (ofWord a b c d, s)
  | _ => none

/-- A word takes four bytes. -/
theorem length_of_word? {s r : Bytes} {n : Nat} (h : word? s = some (n, r)) :
    s.length = r.length + 4 := by
  unfold word? at h
  split at h
  · simp only [Option.some.injEq, Prod.mk.injEq] at h
    simp [h.2]
  · cases h

/-- The length of a header. -/
abbrev headerLength : Nat := 24

/-- What precedes the data of a record. -/
structure Header where
  operation : Nat
  terminal : Nat := 0
  /-- The length of the data; nothing if it is negative as a signed number of 32 bits. -/
  size : Nat
  direction : Nat
  seconds : Nat
  micros : Nat
  deriving DecidableEq, Repr

/-- The operation that ends a session. -/
abbrev closing : Nat := 2

/-- The operation that transfers data. -/
abbrev transferring : Nat := 3

/-- The direction of what the user typed. -/
abbrev typed : Nat := 1

/-- The direction of what the user was shown. -/
abbrev displayed : Nat := 2

namespace Header

/-- The bytes of a header. -/
def bytes (h : Header) : Bytes :=
  word h.operation ++ word h.terminal ++ word h.size ++ word h.direction ++ word h.seconds ++
    word h.micros

/-- The header at the front of a text, and what follows it. -/
def read? (s : Bytes) : Option (Header × Bytes) := do
  let (operation, s) ← word? s
  let (terminal, s) ← word? s
  let (size, s) ← word? s
  let (direction, s) ← word? s
  let (seconds, s) ← word? s
  let (micros, s) ← word? s
  pure ({ operation, terminal, size, direction, seconds, micros }, s)

/-- The number of bytes of data after a header. -/
def dataLength (h : Header) : Nat := if h.size < 2 ^ 31 then h.size else 0

/-- The time of a record in microseconds. -/
def time (h : Header) : Int := h.seconds * 1000000 + h.micros

/-- The descriptor of the stream of a record. -/
def fd (h : Header) : Int := if h.direction = typed then 0 else 1

end Header

/-- An integer as a word of 32 bits. -/
def low (n : Int) : Nat := (n % 2 ^ 32).toNat

/-- The header of an entry.  Seconds and microseconds are cut off toward zero. -/
def header (e : Entry) : Header where
  operation := if e.closed then closing else transferring
  size := if e.closed then 0 else e.data.length % 2 ^ 32
  direction := if e.fd == 0 then typed else displayed
  seconds := low (e.time.tdiv 1000000)
  micros := low (e.time.tmod 1000000)

/-- The pieces in which an entry is written: its header, and its data if it has any. -/
def pieces (e : Entry) : List Bytes :=
  (header e).bytes :: if e.closed || e.data.isEmpty then [] else [e.data]

/-- The entry of a record; operations of other kinds have none. -/
def entryOf? (h : Header) (data : Bytes) : Option Entry :=
  if h.operation = closing then some { time := h.time, fd := h.fd, closed := true }
  else if h.operation = transferring then some { time := h.time, fd := h.fd, data }
  else none

/-- A header takes 24 bytes. -/
theorem Header.length_of_read? {s r : Bytes} {h : Header} (hr : Header.read? s = some (h, r)) :
    s.length = r.length + headerLength := by
  simp only [Header.read?, Option.bind_eq_bind, Option.bind_eq_some_iff, Prod.exists] at hr
  obtain ⟨_, _, h1, _, _, h2, _, _, h3, _, _, h4, _, _, h5, _, _, h6, h7⟩ := hr
  simp only [pure, Option.some.injEq, Prod.mk.injEq] at h7
  obtain ⟨_, rfl⟩ := h7
  have := length_of_word? h1
  have := length_of_word? h2
  have := length_of_word? h3
  have := length_of_word? h4
  have := length_of_word? h5
  have := length_of_word? h6
  simp only [headerLength]
  omega

/-- The entries of a recording.  A record that is cut short ends it. -/
def read (s : Bytes) : List Entry :=
  match _h : Header.read? s with
  | none => []
  | some (h, rest) =>
    if rest.length < h.dataLength then []
    else (entryOf? h (rest.take h.dataLength)).toList ++ read (rest.drop h.dataLength)
termination_by s.length
decreasing_by
  have := Header.length_of_read? _h
  simp only [List.length_drop, headerLength] at *
  omega

/-! ### One entry at a time -/

/-- Why nothing could be read. -/
inductive ReadFault where
  /-- There are no more bytes. -/
  | ended
  /-- Some of the bytes of a header are there. -/
  | unexpectedEnd
  deriving DecidableEq, Repr

/-- A recording from which a header has been read. -/
def takeHeader (s : Bytes) : Except ReadFault (Header × Bytes) :=
  match Header.read? s with
  | some p => .ok p
  | none => .error (if s.isEmpty then .ended else .unexpectedEnd)

/-- The size of the data as a signed number of 32 bits. -/
def Header.signedSize (h : Header) : Int :=
  if h.size < 2 ^ 31 then h.size else h.size - 2 ^ 32

/-- Copies a number of bytes.  Nothing is copied if the number is negative. -/
def copy (n : Int) (s : Bytes) : Except ReadFault (Bytes × Bytes) :=
  let (copied, rest) := s.splitAt n.toNat
  if (copied.length : Int) < n then .error .ended else .ok (copied, rest)

theorem length_of_copy {n : Int} {s r : Bytes} {data : Bytes} (h : copy n s = .ok (data, r)) :
    r.length ≤ s.length := by
  simp only [copy, List.splitAt_eq] at h
  split at h
  · cases h
  · obtain ⟨_, rfl⟩ := Prod.mk.inj (Except.ok.inj h)
    rw [List.length_drop]
    exact Nat.sub_le _ _

theorem length_of_takeHeader {s r : Bytes} {h : Header} (hr : takeHeader s = .ok (h, r)) :
    s.length = r.length + headerLength := by
  unfold takeHeader at hr
  split at hr
  · next p hp =>
    obtain rfl := Except.ok.inj hr
    exact Header.length_of_read? hp
  · cases hr

/-- The next entry and what follows it.  Operations that have no entry are passed over with
their data, and a header that cannot be read is the end of the recording. -/
def next (s : Bytes) : Except ReadFault (Entry × Bytes) :=
  match _hhead : takeHeader s with
  | .error _ => .error .ended
  | .ok (h, s₁) =>
    match _hdata : copy h.signedSize s₁ with
    | .error fault => .error fault
    | .ok (data, s₂) =>
      match entryOf? h data with
      | some e => .ok (e, s₂)
      | none => next s₂
termination_by s.length
decreasing_by
  have := length_of_takeHeader _hhead
  have := length_of_copy _hdata
  simp only [headerLength] at *
  omega

theorem length_of_next {s r : Bytes} {e : Entry} (h : next s = .ok (e, r)) :
    r.length < s.length := by
  induction hn : s.length using Nat.strongRecOn generalizing s with
  | ind n ih =>
    subst hn
    rw [next.eq_def] at h
    split at h
    · cases h
    · next hhead =>
      have hlength := length_of_takeHeader hhead
      simp only [headerLength] at hlength
      split at h
      · cases h
      · next hdata =>
        have hle := length_of_copy hdata
        split at h
        · obtain ⟨_, rfl⟩ := Prod.mk.inj (Except.ok.inj h)
          omega
        · next s₂ _ _ =>
          have hlt := ih s₂.length (by omega) h rfl
          omega

/-- Hands the entries of a recording on, one after the other; why it stopped before the end. -/
def deliver (s : Bytes) : List Entry × Option ReadFault :=
  match _h : next s with
  | .error .ended => ([], none)
  | .error fault => ([], some fault)
  | .ok (e, rest) =>
    let (es, fault) := deliver rest
    (e :: es, fault)
termination_by s.length
decreasing_by exact length_of_next _h

end Uml

end Recording

end ConsoleShell
