/-
Recorded streams and the streams themselves.

A recorded stream answers every call as the stream itself does, and its recorder hears of the call
and of its answer.  Before the recorder is closed each call through which bytes went leaves one
entry with these bytes; closing it leaves the mark, and nothing is left after that.
-/
import ConsoleShell.Proofs.Recording.Playback
import ConsoleShell.Recording.Tee

namespace ConsoleShell

namespace Recording

variable {σ ε : Type}

/-! ### Served calls -/

/-- A call with what its caller was told. -/
structure Served (ε : Type) where
  call : StreamCall
  answer : StreamAnswer ε
  deriving DecidableEq, Repr

namespace Served

/-- How many bytes went through the stream, as the caller was told. -/
def moved (x : Served ε) : Nat :=
  match x.answer with
  | .given data _ => data.length
  | .taken count _ => count
  | .closed => 0

/-- The bytes that went through the stream: those that a reader was given, or the first ones of
those that were to be written. -/
def data (x : Served ε) : Bytes :=
  match x.call, x.answer with
  | .read _ _, .given data _ => data
  | .write _ _ data, .taken count _ => data.take count
  | _, _ => []

/-- The entry for the bytes that went through the stream, with its descriptor; there is none if
no bytes did. -/
def entry? (x : Served ε) : Option Entry :=
  if x.moved = 0 then none
  else match x.call with
    | .read time _ => some { time, fd := 0, data := x.data }
    | .write time o _ => some { time, fd := o.fd, data := x.data }
    | _ => none

/-- The end of the session, if the call closes the recorder. -/
def mark? (x : Served ε) : Option Entry :=
  match x.call with
  | .close time => some { time, fd := 0, closed := true }
  | _ => none

/-- The answer is one to the call, and a writer was not told of more bytes than it had. -/
def IsSound (x : Served ε) : Prop :=
  match x.call, x.answer with
  | .read _ room, .given data _ => data.length ≤ room
  | .write _ _ data, .taken count _ => count ≤ data.length
  | .release _, .closed => True
  | .close _, .closed => True
  | _, _ => False

/-- What the recorder hears of a call. -/
def heard : Served ε → Option Call
  | ⟨.read time _, .given data _⟩ => some (.observe ⟨time, 0, data⟩)
  | ⟨.write time o data, .taken count _⟩ => some (.observe ⟨time, o.fd, data.take count⟩)
  | ⟨.close time, _⟩ => some (.close time)
  | _ => none

lemma IsSound.length_data {x : Served ε} (h : x.IsSound) : x.data.length = x.moved := by
  obtain ⟨c, a⟩ := x
  cases c <;> cases a <;> simp_all [IsSound, data, moved]

end Served

/-- The entries for calls that were served one after the other: one for each call through which
bytes went before the recorder was closed for the first time, and then the end of the session if
it was closed at all. -/
def expectedEntries (xs : List (Served ε)) : List Entry :=
  (xs.takeWhile fun x => x.mark?.isNone).filterMap Served.entry? ++
    (xs.findSome? Served.mark?).toList

/-- Calls with their answers. -/
def served (cs : List StreamCall) (as : List (StreamAnswer ε)) : List (Served ε) :=
  List.zipWith Served.mk cs as

/-! ### One call -/

lemma Channel.isSound_answer (ch : Channel σ ε) (s : σ) (c : StreamCall) :
    (Served.mk c (ch.answer s c).1).IsSound := by
  cases c with
  | read time room => exact (ch.read s room).1.length_le
  | write time o data => exact (ch.write s o data).1.count_le
  | release fd => trivial
  | close time => trivial

/-- The caller is told what the stream itself answers, and the recorder hears of it. -/
lemma Tee.call_eq (ch : Channel σ ε) (sink : SinkRule) (t : Tee σ) (c : StreamCall) :
    t.call ch sink c = ((ch.answer t.streams c).1, ⟨(ch.answer t.streams c).2,
      ((Served.mk c (ch.answer t.streams c).1).heard.toList.foldl
        (Recorder.perform sink) t.recorder)⟩) := by
  cases c <;> rfl

/-- The entry of a call is the one for the bytes that the recorder hears of. -/
lemma entry?_of_observe {x : Served ε} (h : x.IsSound) {c : Chunk}
    (hx : x.heard = some (.observe c)) :
    x.mark? = none ∧ x.entry?.toList = if c.data.isEmpty then [] else [c.entry] := by
  have hentry (e : Entry) (n : Nat) (hn : e.data.length = n) :
      (if n = 0 then none else some e).toList = if e.data.isEmpty then [] else [e] := by
    obtain ⟨time, fd, data, closed⟩ := e
    subst hn
    cases data <;> simp
  have hlength := h.length_data
  obtain ⟨call, answer⟩ := x
  cases call with
  | release fd => cases hx
  | close time => cases hx
  | read time room =>
    cases answer with
    | given data failure =>
      obtain rfl := Call.observe.inj (Option.some.inj hx)
      exact ⟨rfl, hentry ⟨time, 0, data, false⟩ _ hlength⟩
    | taken | closed => exact h.elim
  | write time o data =>
    cases answer with
    | taken count failure =>
      obtain rfl := Call.observe.inj (Option.some.inj hx)
      exact ⟨rfl, hentry ⟨time, o.fd, data.take count, false⟩ _ hlength⟩
    | given | closed => exact h.elim

/-- The recorder hears of the end of the session from the calls that close it. -/
lemma mark?_of_close {x : Served ε} {time : Int} (hx : x.heard = some (.close time)) :
    x.mark? = some { time, fd := 0, closed := true } := by
  obtain ⟨call, answer⟩ := x
  cases call with
  | close t =>
    obtain rfl := Call.close.inj (Option.some.inj hx)
    rfl
  | release fd => cases hx
  | read t room => cases answer <;> cases hx
  | write t o data => cases answer <;> cases hx

/-- A call that the recorder does not hear of moves nothing. -/
lemma entry?_of_unheard {x : Served ε} (h : x.IsSound) (hx : x.heard = none) :
    x.mark? = none ∧ x.entry? = none := by
  obtain ⟨call, answer⟩ := x
  cases call with
  | release fd =>
    refine ⟨rfl, ?_⟩
    rw [Served.entry?]
    exact ite_self none
  | close time => cases hx
  | read time room =>
    cases answer with
    | given data failure => cases hx
    | taken | closed => exact h.elim
  | write time o data =>
    cases answer with
    | taken count failure => cases hx
    | given | closed => exact h.elim

/-- What a call leaves in a recording, before anything else is recorded. -/
lemma entriesBefore_heard {x : Served ε} (h : x.IsSound) (ss : List Section) :
    entriesBefore (x.heard.toList.flatMap Call.sections ++ ss) =
      x.mark?.elim (x.entry?.toList ++ entriesBefore ss) fun mark => [mark] := by
  cases hx : x.heard with
  | none =>
    obtain ⟨hmark, hentry⟩ := entry?_of_unheard h hx
    rw [hmark, hentry]
    rfl
  | some c =>
    rw [Option.toList_some, List.flatMap_singleton]
    cases c with
    | observe chunk =>
      obtain ⟨hmark, hentry⟩ := entry?_of_observe h hx
      rw [hmark, hentry, entriesBefore_observe]
      rfl
    | close time =>
      rw [mark?_of_close hx]
      rfl

/-! ### Calls one after the other -/

lemma Channel.isSound_answerAll (ch : Channel σ ε) (s : σ) (cs : List StreamCall) :
    ∀ x ∈ served cs (ch.answerAll s cs).1, x.IsSound := by
  induction cs generalizing s with
  | nil => simp [served]
  | cons c cs ih =>
    intro x hx
    rcases List.mem_cons.1 hx with rfl | hx
    · exact ch.isSound_answer s c
    · exact ih (ch.answer s c).2 x hx

/-- Callers are told what the streams themselves answer, and the recorder hears of every call. -/
lemma Tee.callAll_eq (ch : Channel σ ε) (sink : SinkRule) (t : Tee σ) (cs : List StreamCall) :
    t.callAll ch sink cs = ((ch.answerAll t.streams cs).1, ⟨(ch.answerAll t.streams cs).2,
      ((served cs (ch.answerAll t.streams cs).1).filterMap Served.heard).foldl
        (Recorder.perform sink) t.recorder⟩) := by
  -- the recorder is carried along; the streams never see it
  induction cs generalizing t with
  | nil => rfl
  | cons c cs ih =>
    rw [callAll, call_eq]
    dsimp only
    rw [ih, Channel.answerAll]
    simp only [served, List.zipWith_cons_cons, List.filterMap_cons]
    cases (Served.mk c (ch.answer t.streams c).1).heard <;> rfl

/-- The recording of served calls has the entries for them. -/
lemma entriesBefore_served {xs : List (Served ε)} (h : ∀ x ∈ xs, x.IsSound) :
    entriesBefore ((xs.filterMap Served.heard).flatMap Call.sections) = expectedEntries xs := by
  induction xs with
  | nil => rfl
  | cons x xs ih =>
    obtain ⟨hx, hxs⟩ := List.forall_mem_cons.1 h
    have hcons : ((x :: xs).filterMap Served.heard).flatMap Call.sections =
        x.heard.toList.flatMap Call.sections ++
          (xs.filterMap Served.heard).flatMap Call.sections := by
      rw [List.filterMap_cons]
      cases x.heard <;> simp
    rw [hcons, entriesBefore_heard hx, ih hxs, expectedEntries, expectedEntries,
      List.takeWhile_cons, List.findSome?_cons]
    cases hmark : x.mark? with
    | some mark => rfl -- nothing is recorded behind the end of the session
    | none =>
      rw [Option.isNone_none, if_pos rfl, List.filterMap_cons]
      cases x.entry? <;> simp

/-- **Recorded streams answer as the streams themselves, and the recording has what went through
them.**  Whatever the streams answer and whatever entries the sink refuses, callers are told what
the streams answer, and of the streams nothing else changes.  The sink is handed one entry for
each call before the recorder is closed through which bytes went, with the descriptor of the
stream and exactly these bytes, then the end of the session if the recorder is closed, and nothing
more. -/
theorem callAll_tees (ch : Channel σ ε) (sink : SinkRule) (s : σ) (cs : List StreamCall) :
    let direct := ch.answerAll s cs
    let (answers, tee) := Tee.callAll ch sink ⟨s, {}⟩ cs
    answers = direct.1 ∧ tee.streams = direct.2 ∧
      tee.recorder.handed = expectedEntries (served cs direct.1) ∧
      ∀ x ∈ served cs direct.1, x.data.length = x.moved := by
  have hsound := ch.isSound_answerAll s cs
  rw [Tee.callAll_eq]
  refine ⟨rfl, rfl, ?_, fun x hx => (hsound x hx).length_data⟩
  rw [Recorder.foldl_perform, Recorder.handed_passAll sink rfl, entriesBefore_served hsound]
  rfl

/-- A failing read that gives a byte, a write that is cut short, and a write after the end. -/
example :
    let ch : Channel Unit Unit := {
      read := fun _ room => (⟨List.replicate (min room 1) 120, some (), by simp⟩, ())
      write := fun _ _ data => (⟨data.length / 2, some (), Nat.div_le_self _ _⟩, ()) }
    let refuses : SinkRule := fun _ _ => some .diskFull
    (Tee.callAll ch refuses ⟨(), {}⟩
      [.read 1 4, .write 2 .error [97, 98, 99], .release 1, .close 3, .write 4 .standard [97, 98],
        .close 5]).2.recorder.handed =
      [⟨1, 0, [120], false⟩, ⟨2, 2, [97], false⟩, ⟨3, 0, [], true⟩] := by
  decide

end Recording

end ConsoleShell
