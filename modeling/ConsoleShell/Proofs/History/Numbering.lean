/-
Histories as numbered lists.

To its callers a history is a list of lines with their numbers, to which lines are only added
until it is cleared, and a count of the numbers that have been given out, which is never taken
back.  The bucket behind it has the lines under keys; keys are ordered as the numbers that they
are written from, so that the items of the bucket are the lines of the list in order.
-/
import ConsoleShell.History
import ConsoleShell.Proofs.Text.Order

namespace ConsoleShell

namespace History

/-! ### Numbers written highest byte first -/

lemma length_bigEndian (width n : Nat) : (bigEndian width n).length = width := by
  induction width with
  | zero => rfl
  | succ width ih => rw [bigEndian, List.length_cons, ih]

/-- As many bytes as there are tell a number up to multiples of the next power. -/
lemma ofBigEndian_bigEndian (width n : Nat) :
    ofBigEndian (bigEndian width n) = n % 256 ^ width := by
  -- the bytes read so far stand in front of those to come
  have hfold : ∀ a, (bigEndian width n).foldl (fun n c => n * 256 + c.toNat) a =
      a * 256 ^ width + n % 256 ^ width := by
    induction width with
    | zero => simp [bigEndian, Nat.mod_one]
    | succ width ih =>
      intro a
      have hbyte : (n / 256 ^ width).toUInt8.toNat = n / 256 ^ width % 256 :=
        UInt8.toNat_ofNat'
      rw [bigEndian, List.foldl_cons, ih, hbyte, Nat.mod_pow_succ]
      ring
  rw [ofBigEndian, hfold, zero_mul, zero_add]

/-- Keys are ordered as numbers: the highest byte in which two numbers differ decides. -/
lemma bigEndian_lt {width n k : Nat} (h : n % 256 ^ width < k % 256 ^ width) :
    (bigEndian width n).lt (bigEndian width k) = true := by
  induction width with
  | zero => simp [Nat.mod_one] at h
  | succ width ih =>
    have hn : n % 256 ^ width < 256 ^ width := Nat.mod_lt _ (by positivity)
    have hk : k % 256 ^ width < 256 ^ width := Nat.mod_lt _ (by positivity)
    rw [Nat.mod_pow_succ, Nat.mod_pow_succ] at h
    have hbytes : ∀ x : Nat, (x / 256 ^ width).toUInt8.toNat = x / 256 ^ width % 256 :=
      fun x => UInt8.toNat_ofNat'
    rw [bigEndian, bigEndian, Bytes.lt, Bool.or_eq_true, decide_eq_true_eq, Bool.and_eq_true,
      beq_iff_eq, UInt8.lt_iff_toNat_lt, ← UInt8.toNat_inj, hbytes, hbytes]
    obtain hlt | heq | hgt := Nat.lt_trichotomy (n / 256 ^ width % 256) (k / 256 ^ width % 256)
    · exact .inl hlt
    · exact .inr ⟨heq, ih (by rw [heq] at h; omega)⟩
    · have hle : 256 ^ width * (k / 256 ^ width % 256 + 1) ≤
          256 ^ width * (n / 256 ^ width % 256) := Nat.mul_le_mul_left _ hgt
      rw [Nat.mul_add] at hle
      omega

/-! ### Keys -/

/-- A number of the counter has no more bytes than a key. -/
lemma toNat_mod_key (n : UInt64) : n.toNat % 256 ^ keyLength = n.toNat := by
  have hn := n.toNat_lt
  exact Nat.mod_eq_of_lt (by norm_num; omega)

lemma ofKey_key (n : UInt64) : ofKey (key n) = n := by
  have htake : (key n).take keyLength = key n :=
    List.take_of_length_le (length_bigEndian keyLength n.toNat).le
  rw [ofKey, htake, key, ofBigEndian_bigEndian, toNat_mod_key]
  exact UInt64.ofNat_toNat

lemma key_injective : Function.Injective key := Function.LeftInverse.injective ofKey_key

lemma key_lt {n k : UInt64} (h : n < k) : (key n).lt (key k) = true := by
  refine bigEndian_lt ?_
  rw [toNat_mod_key, toNat_mod_key]
  exact UInt64.lt_iff_toNat_lt.1 h

/-! ### Signed numbers -/

/-- The number fits into 64 bits with a sign. -/
def IsInt (n : Int) : Prop := -2 ^ 63 ≤ n ∧ n < 2 ^ 63

lemma toNat_unsigned (n : Int) : (unsigned n).toNat = (n % 2 ^ 64).toNat := by
  rw [unsigned, UInt64.ofInt, UInt64.toNat_ofNat', Nat.mod_eq_of_lt]
  omega

lemma signed_eq {n : UInt64} (h : n.toNat < 2 ^ 63) : signed n = n.toNat := by
  unfold signed Numeral.wrap
  exact Int.bmod_eq_of_le (by norm_num) (by norm_num; omega)

lemma signed_unsigned {n : Int} (h : IsInt n) : signed (unsigned n) = n := by
  obtain ⟨hlow, hhigh⟩ := h
  unfold signed Numeral.wrap
  rw [toNat_unsigned, Int.toNat_of_nonneg (by omega)]
  exact (Int.emod_bmod n _).trans
    (Int.bmod_eq_of_le (by norm_num; omega) (by norm_num; omega))

lemma unsigned_injective {n k : Int} (hn : IsInt n) (hk : IsInt k)
    (h : unsigned n = unsigned k) : n = k := by
  rw [← signed_unsigned hn, h, signed_unsigned hk]

end History

/-! ### Buckets -/

namespace Bucket

/-- An item whose key comes after all others is put at the end. -/
lemma insert_last {key : Bytes} {items : List (Bytes × Bytes)}
    (h : ∀ x ∈ items, x.1.lt key = true) (value : Bytes) :
    insert key value items = items ++ [(key, value)] := by
  induction items with
  | nil => rfl
  | cons x items ih =>
    obtain ⟨hx, hitems⟩ := List.forall_mem_cons.1 h
    have hbefore : key.lt x.1 = false := by
      by_contra hlt
      have hself := Bytes.lt_trans (Bool.eq_true_of_not_eq_false hlt) hx
      rw [Bytes.lt_irrefl] at hself
      cases hself
    have hne : (key == x.1) = false := by
      rw [beq_eq_false_iff_ne]
      rintro rfl
      rw [Bytes.lt_irrefl] at hx
      cases hx
    rw [insert, hbefore, hne]
    simp only [Bool.false_eq_true, if_false, ih hitems, List.cons_append]

@[simp] lemma sequence_foldl_delete (b : Bucket) (ks : List Bytes) :
    (ks.foldl delete b).sequence = b.sequence := by
  induction ks generalizing b with
  | nil => rfl
  | cons k ks ih => exact ih (b.delete k)

lemma items_foldl_delete (b : Bucket) (ks : List Bytes) :
    (ks.foldl delete b).items = b.items.filter fun x => x.1 ∉ ks := by
  induction ks generalizing b with
  | nil => simp
  | cons k ks ih =>
    rw [List.foldl_cons, ih, delete, List.filter_filter]
    refine List.filter_congr fun x _ => ?_
    rw [Bool.eq_iff_iff]
    simp [and_comm]

/-- Deleting every key leaves the counter alone. -/
lemma foldl_delete_keys (b : Bucket) : b.keys.foldl delete b = { b with items := [] } := by
  have hitems : (b.keys.foldl delete b).items = [] := by
    rw [items_foldl_delete, List.filter_eq_nil_iff]
    intro x hx
    have hkey : x.1 ∈ b.keys := List.mem_map_of_mem hx
    simpa using hkey
  have hsequence := sequence_foldl_delete b b.keys
  generalize b.keys.foldl delete b = b' at hitems hsequence
  cases b'
  simp_all

end Bucket

namespace History

/-! ### Numbered lists -/

/-- What can be done to a history between two looks at it. -/
inductive Deed where
  | add (text : Bytes)
  | clear
  /-- The history is closed, and its file is opened again. -/
  | reopen
  deriving DecidableEq, Repr

/-- Whether a line is added. -/
def Deed.isAdd : Deed → Bool
  | .add _ => true
  | _ => false

/-- A numbered list to which lines are added. -/
structure Ledger where
  /-- The lines that have been added since the list was last cleared. -/
  lines : List HistoryEntry := []
  /-- How many lines have ever been added. -/
  added : Nat := 0

namespace Ledger

/-- What is done to the list. -/
def step (l : Ledger) : Deed → Ledger
  | .add text => ⟨l.lines ++ [⟨l.added + 1, text⟩], l.added + 1⟩
  | .clear => { l with lines := [] }
  | .reopen => l

/-- The list after a number of deeds. -/
def run (deeds : List Deed) : Ledger := deeds.foldl step {}

end Ledger

/-- A history with the numbers that its callers have been given. -/
structure Session where
  history : History := ofFile none
  numbers : List Int := []

namespace Session

/-- What is done to the history. -/
def step (s : Session) : Deed → Session
  | .add text => ⟨(s.history.append text).2, s.numbers ++ [(s.history.append text).1]⟩
  | .clear => { s with history := s.history.clear }
  | .reopen => { s with history := ofFile s.history.close }

/-- A history that starts with a new file, after a number of deeds. -/
def run (deeds : List Deed) : Session := deeds.foldl step {}

end Session

/-- The history holds the lines of the list under their numbers, and its counter is where the
list is. -/
structure Holds (h : History) (l : Ledger) : Prop where
  sequence : h.bucket.sequence.toNat = l.added
  items : h.bucket.items = l.lines.map fun e => (key (unsigned e.number), e.text)
  numbers : ∀ e ∈ l.lines, 1 ≤ e.number ∧ e.number ≤ l.added
  increasing : l.lines.Pairwise fun a b => a.number < b.number

namespace Holds

variable {h : History} {l : Ledger}

/-! ### What deeds do -/

/-- As long as the counter has not come to its end, the next number is one more. -/
lemma toNat_succ (hl : Holds h l) (hroom : l.added + 1 < 2 ^ 63) :
    (h.bucket.sequence + 1).toNat = l.added + 1 := by
  have hone : (1 : UInt64).toNat = 1 := rfl
  rw [UInt64.toNat_add, hl.sequence, hone]
  exact Nat.mod_eq_of_lt (by omega)

lemma next_eq (hl : Holds h l) (hroom : l.added + 1 < 2 ^ 63) : h.next = l.added + 1 := by
  have hsucc := hl.toNat_succ hroom
  rw [next, signed_eq (by rw [hsucc]; exact hroom), hsucc]
  rfl

lemma unsigned_succ (hl : Holds h l) (hroom : l.added + 1 < 2 ^ 63) :
    unsigned (l.added + 1) = h.bucket.sequence + 1 := by
  rw [← UInt64.toNat_inj, toNat_unsigned, hl.toNat_succ hroom]
  omega

/-- The numbers of lines fit into 64 bits with a sign as long as the counter does. -/
lemma isInt (hl : Holds h l) (hroom : l.added < 2 ^ 63) {e : HistoryEntry} (he : e ∈ l.lines) :
    IsInt e.number := by
  obtain ⟨hlow, hhigh⟩ := hl.numbers e he
  constructor <;> omega

/-- The key of a new line comes after those of all others. -/
lemma key_lt_next (hl : Holds h l) (hroom : l.added + 1 < 2 ^ 63) :
    ∀ x ∈ h.bucket.items, x.1.lt (key (h.bucket.sequence + 1)) = true := by
  rw [hl.items]
  intro x hx
  obtain ⟨e, he, rfl⟩ := List.mem_map.1 hx
  obtain ⟨hlow, hhigh⟩ := hl.numbers e he
  refine key_lt (UInt64.lt_iff_toNat_lt.2 ?_)
  rw [toNat_unsigned, hl.toNat_succ hroom]
  norm_num at hroom ⊢
  omega

lemma append (hl : Holds h l) (hroom : l.added + 1 < 2 ^ 63) (text : Bytes) :
    (h.append text).1 = l.added + 1 ∧ Holds (h.append text).2 (l.step (.add text)) := by
  have happend : h.append text = (h.next, ⟨⟨Bucket.insert (key (h.bucket.sequence + 1)) text
      h.bucket.items, h.bucket.sequence + 1⟩⟩) := rfl
  rw [happend]
  dsimp only
  refine ⟨hl.next_eq hroom, hl.toNat_succ hroom, ?_, ?_, ?_⟩
  · rw [Bucket.insert_last (hl.key_lt_next hroom), hl.items, ← hl.unsigned_succ hroom]
    rw [Ledger.step, List.map_append, List.map_singleton]
  · intro e he
    show 1 ≤ e.number ∧ e.number ≤ ((l.added + 1 : Nat) : Int)
    rcases List.mem_append.1 he with he | he
    · have hbounds := hl.numbers e he
      omega
    · obtain rfl := List.mem_singleton.1 he
      dsimp only
      omega
  · refine List.pairwise_append.2 ⟨hl.increasing, List.pairwise_singleton _ _, ?_⟩
    intro e he new hnew
    obtain rfl := List.mem_singleton.1 hnew
    have hbounds := hl.numbers e he
    dsimp only
    omega

lemma clear (hl : Holds h l) : Holds h.clear (l.step .clear) := by
  have hclear : h.clear = ⟨{ h.bucket with items := [] }⟩ :=
    congrArg History.mk h.bucket.foldl_delete_keys
  rw [hclear]
  exact ⟨hl.sequence, rfl, fun e he => absurd he List.not_mem_nil, List.Pairwise.nil⟩

/-! ### What a look at the history shows -/

/-- What is collected is the beginning of the items, up to the limit. -/
lemma collect_eq (limit : Int) (found : List HistoryEntry) (items : List (Bytes × Bytes)) :
    collect limit found items = found ++
      if 0 < limit then (items.map entry).take (limit.toNat - found.length)
      else items.map entry := by
  induction items generalizing found with
  | nil => simp [collect]
  | cons item items ih =>
    rw [collect]
    by_cases hlimit : 0 < limit
    · by_cases hfull : limit ≤ found.length
      · have hzero : limit.toNat - found.length = 0 := by omega
        simp [hlimit, hfull, hzero]
      · obtain ⟨room, hroom⟩ : ∃ room, limit.toNat - found.length = room + 1 :=
          ⟨limit.toNat - found.length - 1, by omega⟩
        have hrest : limit.toNat - (found ++ [entry item]).length = room := by
          rw [List.length_append, List.length_singleton]
          omega
        simp only [hlimit, hfull, decide_true, decide_false, Bool.and_false, Bool.false_eq_true,
          if_false, if_true, ih, hrest, hroom, List.map_cons, List.take_succ_cons]
        simp
    · simp [hlimit, ih]

lemma map_entry_items (hl : Holds h l) (hroom : l.added < 2 ^ 63) :
    h.bucket.items.map entry = l.lines := by
  rw [hl.items, List.map_map]
  conv_rhs => rw [← List.map_id l.lines]
  refine List.map_congr_left fun e he => ?_
  rw [Function.comp_apply, entry, ofKey_key, signed_unsigned (hl.isInt hroom he)]
  rfl

lemma recent_eq (hl : Holds h l) (hroom : l.added < 2 ^ 63) (limit : Int) :
    h.recent limit = if 0 < limit then l.lines.rtake limit.toNat else l.lines := by
  rw [recent, collect_eq, Bucket.backwards, List.map_reverse, hl.map_entry_items hroom]
  split_ifs
  · rw [List.nil_append, List.length_nil, Nat.sub_zero, List.rtake_eq_reverse_take_reverse]
  · rw [List.nil_append, List.reverse_reverse]

/-- No two lines have the same number. -/
lemma eq_of_number_eq (hl : Holds h l) {a b : HistoryEntry} (ha : a ∈ l.lines)
    (hb : b ∈ l.lines) (hnumber : a.number = b.number) : a = b := by
  by_contra hne
  have hdistinct : l.lines.Pairwise fun a b => a.number ≠ b.number :=
    hl.increasing.imp fun hlt => ne_of_lt hlt
  have : Std.Symm fun a b : HistoryEntry => a.number ≠ b.number := ⟨fun _ _ hab => hab.symm⟩
  exact hdistinct.forall ha hb hne hnumber

/-- A number is found exactly if a line has it. -/
lemma find?_eq_some_iff (hl : Holds h l) (hroom : l.added < 2 ^ 63) {number : Int}
    (hnumber : IsInt number) (text : Bytes) :
    h.find? number = some text ↔ ⟨number, text⟩ ∈ l.lines := by
  have hkey : ∀ e ∈ l.lines, (key (unsigned e.number) == key (unsigned number)) = true →
      e.number = number := by
    intro e he heq
    exact unsigned_injective (hl.isInt hroom he) hnumber (key_injective (beq_iff_eq.1 heq))
  rw [find?, Bucket.get?, hl.items, List.find?_map, Option.map_map, Option.map_eq_some_iff]
  constructor
  · rintro ⟨e, hfind, rfl⟩
    have he := List.mem_of_find?_eq_some hfind
    have hmatch := List.find?_some hfind
    rw [Function.comp_apply] at hmatch
    obtain rfl := hkey e he hmatch
    exact he
  · intro he
    obtain ⟨e, hfind⟩ : ∃ e, (l.lines.find? fun e =>
        key (unsigned e.number) == key (unsigned number)) = some e :=
      Option.isSome_iff_exists.1 (List.find?_isSome.2 ⟨_, he, beq_self_eq_true _⟩)
    have hmem := List.mem_of_find?_eq_some hfind
    have hmatch : (key (unsigned e.number) == key (unsigned number)) = true := by
      simpa only using List.find?_some hfind
    have hsame : e = ⟨number, text⟩ := hl.eq_of_number_eq hmem he (hkey e hmem hmatch)
    exact ⟨e, hfind, congrArg HistoryEntry.text hsame⟩

end Holds

/-! ### Runs -/

/-- How many of the deeds add a line. -/
def additions (deeds : List Deed) : Nat := deeds.countP Deed.isAdd

lemma added_run (deeds : List Deed) : (Ledger.run deeds).added = additions deeds := by
  induction deeds using List.reverseRecOn with
  | nil => rfl
  | append_singleton deeds d ih =>
    have hstep : Ledger.run (deeds ++ [d]) = (Ledger.run deeds).step d := by
      rw [Ledger.run, List.foldl_append]
      rfl
    rw [hstep, additions, List.countP_append, ← additions, ← ih]
    cases d <;> rfl

/-- A history that starts with a new file holds the list that callers have in mind, and has
given out the numbers from one on. -/
lemma holds_run (deeds : List Deed) (hroom : additions deeds < 2 ^ 63) :
    Holds (Session.run deeds).history (Ledger.run deeds) ∧
      (Session.run deeds).numbers = (List.range (additions deeds)).map fun i : Nat => (i : Int) + 1 := by
  induction deeds using List.reverseRecOn with
  | nil =>
    refine ⟨⟨rfl, rfl, fun e he => absurd he List.not_mem_nil, List.Pairwise.nil⟩, rfl⟩
  | append_singleton deeds d ih =>
    have hcount : additions (deeds ++ [d]) = additions deeds + additions [d] :=
      List.countP_append
    obtain ⟨hheld, hnumbers⟩ := ih (by omega)
    have hsession : Session.run (deeds ++ [d]) = (Session.run deeds).step d := by
      simp [Session.run]
    have hledger : Ledger.run (deeds ++ [d]) = (Ledger.run deeds).step d := by
      simp [Ledger.run]
    rw [hsession, hledger, hcount]
    cases d with
    | add text =>
      have hone : additions [.add text] = 1 := rfl
      have hadded := added_run deeds
      obtain ⟨hnumber, hstep⟩ := hheld.append (by omega) text
      refine ⟨hstep, ?_⟩
      rw [hone, List.range_succ, List.map_append, ← hnumbers]
      simp only [Session.step, hnumber, hadded, List.map_singleton]
    | clear => exact ⟨hheld.clear, hnumbers⟩
    | reopen => exact ⟨hheld, hnumbers⟩

/-- **A history is a numbered list to which lines are only added.**  Whatever is added and
however often the history is cleared, closed and opened again, as long as the numbers fit into
64 bits with a sign: the numbers given out are 1, 2, 3 and so on, and the next one is one more
than the last; without a positive limit the history shows the lines added since it was last
cleared by increasing number, with one the last of them; and a number is found, with its text,
exactly if it is among them. -/
theorem run_numbers_lines (deeds : List Deed) (hroom : additions deeds < 2 ^ 63 - 1) :
    let h := (Session.run deeds).history
    let lines := (Ledger.run deeds).lines
    (Session.run deeds).numbers = (List.range (additions deeds)).map (fun i : Nat => (i : Int) + 1) ∧
    h.next = (Session.run deeds).numbers.getLastD 0 + 1 ∧
    (∀ limit ≤ 0, h.recent limit = lines) ∧
    (∀ limit : Nat, 0 < limit → h.recent limit = lines.rtake limit) ∧
    lines.Pairwise (fun a b => a.number < b.number) ∧
    ∀ number text, IsInt number →
      (h.find? number = some text ↔ ⟨number, text⟩ ∈ h.recent 0) := by
  intro h lines
  obtain ⟨hheld, hnumbers⟩ := holds_run deeds (by omega)
  have hadded := added_run deeds
  have hfits : (Ledger.run deeds).added < 2 ^ 63 := by omega
  have hrecent := hheld.recent_eq hfits
  refine ⟨hnumbers, ?_, fun limit hlimit => ?_, fun limit hlimit => ?_, hheld.increasing,
    fun number text hnumber => ?_⟩
  · rw [hheld.next_eq (by omega), hadded, hnumbers]
    cases additions deeds with
    | zero => rfl
    | succ n => simp [List.range_succ]
  · rw [hrecent, if_neg (by omega)]
  · rw [hrecent, if_pos (by omega), Int.toNat_natCast]
  · rw [hrecent, if_neg (by omega)]
    exact hheld.find?_eq_some_iff hfits hnumber text

/-- After the history has been cleared and opened again, numbers go on where they were. -/
theorem run_numbers_lines_reopened :
    let deeds := [.add "help", .clear, .reopen, .add "exit", .add "epicsEnvShow"]
    let h := (Session.run deeds).history
    additions deeds < 2 ^ 63 - 1 ∧ IsInt 2 ∧
    (Session.run deeds).numbers = [1, 2, 3] ∧ h.next = 4 ∧
    h.recent 0 = [⟨2, "exit"⟩, ⟨3, "epicsEnvShow"⟩] ∧ h.recent 1 = [⟨3, "epicsEnvShow"⟩] ∧
    h.find? 2 = some ("exit" : Bytes) := by
  intro deeds h
  have hroom : additions deeds < 2 ^ 63 - 1 := by decide
  have htwo : IsInt 2 := ⟨by norm_num, by norm_num⟩
  have hlines : (Ledger.run deeds).lines = [⟨2, "exit"⟩, ⟨3, "epicsEnvShow"⟩] := rfl
  obtain ⟨hnumbers, hnext, hall, hlast, -, hfind⟩ := run_numbers_lines deeds hroom
  have hthree : (Session.run deeds).numbers = [1, 2, 3] := hnumbers
  rw [hthree] at hnext
  rw [hlines] at hall hlast
  refine ⟨hroom, htwo, hthree, hnext, hall 0 le_rfl, hlast 1 one_pos, ?_⟩
  rw [hfind 2 "exit" htwo, hall 0 le_rfl]
  exact List.mem_cons_self

end History

end ConsoleShell
