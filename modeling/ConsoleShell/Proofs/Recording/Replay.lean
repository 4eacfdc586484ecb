/-
Recordings from beginning to end.

A recording that is written without a limit is the bytes of its entries one after the other,
and replaying it to a receiver without a limit delivers all entries that can be read.
-/
import ConsoleShell.Recording.Sink
import Mathlib

namespace ConsoleShell

namespace Recording

/-! ### Writing -/

lemma Tape.writeAll_unlimited (b : Bytes) (ps : List Bytes) :
    ({ bytes := b } : Tape).writeAll ps = (true, { bytes := b ++ ps.flatten }) := by
  induction ps generalizing b with
  | nil => simp [writeAll]
  | cons p ps ih =>
    have hroom : ({ bytes := b } : Tape).hasRoom p = true := rfl
    rw [writeAll, if_pos hroom]
    exact (ih (b ++ p)).trans (by simp)

/-- The bytes of entries, given the time of the first entry if they are not the first. -/
def Format.bytes (format : Format) (start : Option Int) : List Entry → Bytes
  | [] => []
  | e :: es => (format.pieces start e).flatten ++ format.bytes (some (start.getD e.time)) es

lemma Sink.bytes_foldl_put (format : Format) (start : Option Int) (b : Bytes)
    (es : List Entry) :
    (es.foldl (fun s e => (Sink.put s e).2)
        { format, start, tape := { bytes := b } }).tape.bytes =
      b ++ format.bytes start es := by
  induction es generalizing start b with
  | nil => simp [Format.bytes]
  | cons e es ih =>
    rw [List.foldl_cons, put, Tape.writeAll_unlimited, Format.bytes, ← List.append_assoc]
    exact ih _ _

/-- A recording is the bytes of its entries. -/
lemma Format.write_eq (format : Format) (es : List Entry) :
    format.write es = format.bytes none es :=
  Sink.bytes_foldl_put format none [] es

/-! ### Replaying -/

/-- What a recording delivers to a receiver without a limit, and why it stops before its end. -/
def replay (format : Format) (s : Bytes) : List Entry × Option PlayFault :=
  let (es, fault, _) := play format s (.display {})
  (es, fault)

lemma Receiver.putAll_display (b : Bytes) (es : List Entry) :
    (Receiver.display { bytes := b }).putAll es =
      (es, true, .display { bytes := b ++ es.flatMap Entry.shown }) := by
  induction es generalizing b with
  | nil => rw [putAll, List.flatMap_nil, List.append_nil]
  | cons e es ih =>
    rw [putAll, put, Tape.writeAll_unlimited]
    simp only [List.flatten_cons, List.flatten_nil, List.append_nil, ih, List.flatMap_cons,
      List.append_assoc]

/-- Nothing stops a display without a limit but the recording itself. -/
lemma play_display (format : Format) (s : Bytes) :
    play format s (.display {}) =
      ((format.read s).1, (format.read s).2.map .line,
        .display { bytes := (format.read s).1.flatMap Entry.shown }) := by
  rw [play]
  simp only [Receiver.putAll_display, List.nil_append]

lemma replay_eq (format : Format) (s : Bytes) :
    replay format s = ((format.read s).1, (format.read s).2.map .line) := by
  rw [replay, play_display]

end Recording

end ConsoleShell
