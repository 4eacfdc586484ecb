/-
The end of a recording.

A recorder is called by whoever reads or writes the streams of a session, each in its own time.
A call that saw bytes is one section under the lock of the recorder.  Closing takes two: the
end of the session is marked in the first, and the second keeps out all later entries.  Calls
made one after the other leave one mark at the very end.  Sections of other calls that get in
between the two are recorded after the mark, so the mark is final exactly if the section after
it is one that closes.
-/
import ConsoleShell.Recording.Recorder
import Mathlib

namespace ConsoleShell

namespace Recording

/-! ### Calls -/

/-- Bytes that went through a stream of a session at once. -/
structure Chunk where
  time : Int
  fd : Int
  data : Bytes
  deriving DecidableEq, Repr

/-- The entry for a chunk. -/
def Chunk.entry (c : Chunk) : Entry := { time := c.time, fd := c.fd, data := c.data }

/-- A call of a recorder. -/
inductive Call where
  /-- Bytes went through a stream. -/
  | observe (chunk : Chunk)
  /-- The session is over. -/
  | close (time : Int)
  deriving DecidableEq, Repr

/-- What a call does while it holds the lock of the recorder. -/
inductive Section where
  /-- Hands an entry to the sink unless the recorder is closed. -/
  | record (entry : Entry)
  /-- Keeps out all later entries. -/
  | shut
  deriving DecidableEq, Repr

/-- The sections of a call, in order; there is nothing to record about no bytes. -/
def Call.sections : Call → List Section
  | .observe c => if c.data.isEmpty then [] else [.record c.entry]
  | .close time => [.record { time, fd := 0, closed := true }, .shut]

/-- The calls take turns in any way, section by section, and have come any far: what is still to
be done of each is a list of sections. -/
inductive Interleaved : List (List Section) → List Section → Prop
  | nil (ps : List (List Section)) : Interleaved ps []
  | cons (ps : List (List Section)) {qs : List (List Section)} {p ss : List Section} {s : Section} :
    Interleaved (ps ++ p :: qs) ss → Interleaved (ps ++ (s :: p) :: qs) (s :: ss)

namespace Recorder

/-- Makes a call while no other is made. -/
def perform (sink : SinkRule) (r : Recorder) : Call → Recorder
  | .observe c => r.observe sink c.time c.fd c.data
  | .close time => r.close sink time

/-- Passes one section. -/
def pass (sink : SinkRule) (r : Recorder) : Section → Recorder
  | .record e => r.record sink e
  | .shut => r.shut

/-- Passes sections one after the other. -/
def passAll (sink : SinkRule) (r : Recorder) (ss : List Section) : Recorder :=
  ss.foldl (pass sink) r

/-- The entries that were handed to the sink, in order. -/
def handed (r : Recorder) : List Entry := r.attempts.map Attempt.entry

/-- A call is its sections. -/
lemma perform_eq (sink : SinkRule) (r : Recorder) (c : Call) :
    r.perform sink c = r.passAll sink c.sections := by
  cases c with
  | observe c =>
    rw [perform, observe, Call.sections]
    cases c.data.isEmpty <;> rfl
  | close time => rfl

lemma foldl_perform (sink : SinkRule) (r : Recorder) (cs : List Call) :
    cs.foldl (perform sink) r = r.passAll sink (cs.flatMap Call.sections) := by
  induction cs generalizing r with
  | nil => rfl
  | cons c cs ih =>
    rw [List.foldl_cons, ih, perform_eq, List.flatMap_cons, passAll, passAll, passAll,
      List.foldl_append]

end Recorder

/-! ### What is handed to the sink -/

/-- The entries that are recorded before the first section that closes. -/
def entriesBefore : List Section → List Entry
  | [] => []
  | .record e :: ss => e :: entriesBefore ss
  | .shut :: _ => []

namespace Recorder

variable (sink : SinkRule)

lemma passAll_of_closed {r : Recorder} (h : r.closed = true) (ss : List Section) :
    r.passAll sink ss = r := by
  induction ss with
  | nil => rfl
  | cons s ss ih =>
    have hpass : r.pass sink s = r := by
      cases s with
      | record e => rw [pass, record, if_pos h]
      | shut => rw [pass, shut, ← h]
    rw [passAll, List.foldl_cons, hpass]
    exact ih

/-- Exactly what is recorded before the recorder is closed reaches the sink. -/
theorem handed_passAll {r : Recorder} (h : r.closed = false) (ss : List Section) :
    (r.passAll sink ss).handed = r.handed ++ entriesBefore ss := by
  induction ss generalizing r with
  | nil => exact (List.append_nil r.handed).symm
  | cons s ss ih =>
    rw [passAll, List.foldl_cons]
    cases s with
    | record e =>
      have hopen : (r.pass sink (.record e)).closed = false := by
        rw [pass, record, if_neg (by simp [h])]
        exact h
      have hhanded : (r.pass sink (.record e)).handed = r.handed ++ [e] := by
        rw [pass, record, if_neg (by simp [h]), handed, List.map_append]
        rfl
      exact (ih hopen).trans (by rw [hhanded, entriesBefore, List.append_assoc]; rfl)
    | shut =>
      have hclosed := passAll_of_closed sink (r := r.pass sink .shut) rfl ss
      rw [passAll] at hclosed
      rw [hclosed, entriesBefore, List.append_nil]
      rfl

end Recorder

/-! ### The mark -/

/-- The end of the session is marked at most once, and nothing comes after the mark. -/
def EndsOnce (es : List Entry) : Prop :=
  es.countP Entry.closed ≤ 1 ∧
    ∀ before e after, es = before ++ e :: after → e.closed = true → after = []

lemma endsOnce_nil : EndsOnce [] := ⟨Nat.zero_le 1, fun _ _ _ h => by simp at h⟩

lemma endsOnce_cons {e : Entry} {es : List Entry} :
    EndsOnce (e :: es) ↔ (e.closed = true → es = []) ∧ EndsOnce es := by
  constructor
  · rintro ⟨hcount, hlast⟩
    refine ⟨hlast [] e es rfl, ?_, fun before x after h => ?_⟩
    · exact (List.sublist_cons_self e es).countP_le.trans hcount
    · exact hlast (e :: before) x after (by rw [h, List.cons_append])
  · rintro ⟨hfirst, hcount, hlast⟩
    refine ⟨?_, fun before x after h => ?_⟩
    · cases hclosed : e.closed with
      | true => simp [hfirst hclosed, hclosed]
      | false => simpa [List.countP_cons, hclosed] using hcount
    · cases before with
      | nil =>
        obtain ⟨rfl, rfl⟩ := List.cons.inj h
        exact hfirst
      | cons y before => exact hlast before x after (List.cons.inj h).2

lemma entriesBefore_eq_nil_iff {ss : List Section} :
    entriesBefore ss = [] ↔ ∀ s ∈ ss.head?, s = .shut := by
  rcases ss with _ | ⟨s, ss⟩
  · simp [entriesBefore]
  · cases s <;> simp [entriesBefore]

/-- Marks that are recorded before the recorder is closed are at once followed by closing it. -/
def ClosesAtMark (ss : List Section) : Prop :=
  ∀ before e after, ss = before ++ .record e :: after → e.closed = true → .shut ∉ before →
    ∀ s ∈ after.head?, s = .shut

lemma closesAtMark_record {e : Entry} {ss : List Section} :
    ClosesAtMark (.record e :: ss) ↔
      (e.closed = true → ∀ s ∈ ss.head?, s = .shut) ∧ ClosesAtMark ss := by
  constructor
  · intro h
    refine ⟨fun he => h [] e ss rfl he List.not_mem_nil, fun before x after hss hx hshut => ?_⟩
    exact h (.record e :: before) x after (by rw [hss, List.cons_append]) hx (by simpa using hshut)
  · rintro ⟨hfirst, hrest⟩ before x after hss hx hshut
    cases before with
    | nil =>
      obtain ⟨heq, rfl⟩ := List.cons.inj hss
      obtain rfl := Section.record.inj heq
      exact hfirst hx
    | cons s before =>
      exact hrest before x after (List.cons.inj hss).2 hx fun hmem =>
        hshut (List.mem_cons_of_mem s hmem)

lemma closesAtMark_shut (ss : List Section) : ClosesAtMark (.shut :: ss) := by
  rintro (_ | ⟨s, before⟩) x after hss - hshut
  · cases hss
  · obtain ⟨rfl, -⟩ := List.cons.inj hss
    exact absurd List.mem_cons_self hshut

lemma endsOnce_entriesBefore_iff (ss : List Section) :
    EndsOnce (entriesBefore ss) ↔ ClosesAtMark ss := by
  induction ss with
  | nil => exact iff_of_true endsOnce_nil fun _ _ _ h => by simp at h
  | cons s ss ih =>
    cases s with
    | record e =>
      rw [entriesBefore, endsOnce_cons, closesAtMark_record, ih, entriesBefore_eq_nil_iff]
    | shut => exact iff_of_true endsOnce_nil (closesAtMark_shut ss)

/-- A call is over before the next section of another one. -/
lemma closesAtMark_calls (cs : List Call) : ClosesAtMark (cs.flatMap Call.sections) := by
  induction cs with
  | nil => exact fun _ _ _ h => by simp at h
  | cons c cs ih =>
    rw [List.flatMap_cons]
    cases c with
    | observe c =>
      rw [Call.sections]
      split_ifs
      · exact ih
      · exact closesAtMark_record.2 ⟨fun h => (Bool.false_ne_true h).elim, ih⟩
    | close time =>
      exact closesAtMark_record.2 ⟨fun _ s hs => (Option.some.inj hs).symm, closesAtMark_shut _⟩

/-- In whatever order sections are passed, the sink is handed what is recorded before the first
of them that closes.  So the end of the session is marked once and last exactly if the mark is
at once followed by closing the recorder, as it is if calls are made one after the other. -/
theorem endsOnce_handed_iff (sink : SinkRule) :
    (∀ ss : List Section, (({} : Recorder).passAll sink ss).handed = entriesBefore ss) ∧
    (∀ ss : List Section,
      EndsOnce (({} : Recorder).passAll sink ss).handed ↔ ClosesAtMark ss) ∧
    ∀ cs : List Call, EndsOnce (cs.foldl (Recorder.perform sink) {}).handed := by
  have hhanded (ss : List Section) :
      (({} : Recorder).passAll sink ss).handed = entriesBefore ss :=
    Recorder.handed_passAll sink rfl ss
  refine ⟨hhanded, fun ss => ?_, fun cs => ?_⟩
  · rw [hhanded, endsOnce_entriesBefore_iff]
  · rw [Recorder.foldl_perform, hhanded, endsOnce_entriesBefore_iff]
    exact closesAtMark_calls cs

/-- The mark is neither final nor unique for all calls that take turns: a read that ends while
the recorder is being closed is recorded after the mark, and so is a second mark. -/
theorem interleaved_calls_record_after_the_mark :
    ¬ ∀ (sink : SinkRule) (cs : List Call) (ss : List Section),
      Interleaved (cs.map Call.sections) ss →
        EndsOnce (({} : Recorder).passAll sink ss).handed := by
  intro h
  have hss : Interleaved ([.close 1, .observe ⟨2, 0, [120]⟩, .close 3].map Call.sections)
      [.record ⟨1, 0, [], true⟩, .record ⟨2, 0, [120], false⟩, .record ⟨3, 0, [], true⟩] :=
    .cons [] (.cons [[.shut]] (.cons [[.shut], []] (.nil _)))
  have hends := h (fun _ _ => none) _ _ hss
  exact absurd (hends.2 [] ⟨1, 0, [], true⟩ _ rfl rfl) (List.cons_ne_nil _ _)

end Recording

end ConsoleShell
