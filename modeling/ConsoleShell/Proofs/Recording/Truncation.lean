/-
Recordings that are cut short.

The readers of both formats work from the front: what has been read is read whatever follows.
A record or a line that is cut short ends the recording quietly, so the beginning of a
recording, whatever byte it ends with, is replayed as the beginning of what was recorded.
-/
import ConsoleShell.Proofs.Recording.Asciicast
import ConsoleShell.Proofs.Recording.Uml

namespace ConsoleShell

namespace Recording

/-! ### Binary records -/

namespace Uml

lemma word?_append {s r : Bytes} {n : Nat} (h : word? s = some (n, r)) (t : Bytes) :
    word? (s ++ t) = some (n, r ++ t) := by
  unfold word? at h
  split at h
  · obtain ⟨rfl, rfl⟩ := Prod.mk.inj (Option.some.inj h)
    rfl
  · cases h

lemma Header.read?_append {s r : Bytes} {h : Header} (hr : read? s = some (h, r)) (t : Bytes) :
    read? (s ++ t) = some (h, r ++ t) := by
  simp only [read?, Option.bind_eq_bind, Option.bind_eq_some_iff, Prod.exists] at hr ⊢
  obtain ⟨_, _, h1, _, _, h2, _, _, h3, _, _, h4, _, _, h5, _, _, h6, h7⟩ := hr
  obtain ⟨rfl, rfl⟩ := Prod.mk.inj (Option.some.inj h7)
  exact ⟨_, _, word?_append h1 t, _, _, word?_append h2 t, _, _, word?_append h3 t, _, _,
    word?_append h4 t, _, _, word?_append h5 t, _, _, word?_append h6 t, rfl⟩

/-- Whatever follows, what has been read is read. -/
lemma isPrefix_read (s t : Bytes) : read s <+: read (s ++ t) := by
  induction hn : s.length using Nat.strong_induction_on generalizing s with
  | _ n ih =>
    subst hn
    cases hr : Header.read? s with
    | none =>
      rw [read_of_none hr]
      exact List.nil_prefix
    | some p =>
      obtain ⟨h, rest⟩ := p
      have hlength := Header.length_of_read? hr
      rw [read_of_some hr, read_of_some (Header.read?_append hr t)]
      by_cases hshort : rest.length < h.dataLength
      · rw [if_pos hshort]
        exact List.nil_prefix
      · have hle : h.dataLength ≤ rest.length := not_lt.1 hshort
        rw [if_neg hshort, if_neg (by rw [List.length_append]; omega),
          List.take_append_of_le_length hle, List.drop_append_of_le_length hle,
          List.prefix_append_right_inj]
        refine ih _ ?_ _ rfl
        rw [List.length_drop, hlength, headerLength]
        omega

end Uml

/-! ### Lines of JSON -/

namespace Asciicast

/-- Text after the last newline is not a line yet. -/
lemma isPrefix_fullLines (s t : Bytes) : fullLines s <+: fullLines (s ++ t) := by
  induction hn : s.length using Nat.strong_induction_on generalizing s with
  | _ n ih =>
    subst hn
    by_cases hmem : Ascii.newline ∈ s
    · obtain ⟨line, rest, rfl, hline⟩ := List.eq_append_cons_of_mem hmem
      have hlines (u : Bytes) : fullLines (line ++ Ascii.newline :: u) = line :: fullLines u := by
        simpa [Bytes.line] using fullLines_line hline u
      rw [List.append_assoc, List.cons_append, hlines, hlines, List.prefix_cons_inj]
      exact ih rest.length (by rw [List.length_append, List.length_cons]; omega) rest rfl
    · rw [fullLines_of_not_mem hmem]
      exact List.nil_prefix

/-- The first lines of lines without a fault have none either. -/
lemma readLines_append {ls t : List Bytes} (h : (readLines (ls ++ t)).2 = none) :
    (readLines ls).2 = none ∧ (readLines ls).1 <+: (readLines (ls ++ t)).1 := by
  induction ls with
  | nil => exact ⟨rfl, List.nil_prefix⟩
  | cons l ls ih =>
    rw [List.cons_append, readLines] at h ⊢
    rw [readLines]
    cases hempty : l.isEmpty with
    | true =>
      simp only [hempty, if_true] at h ⊢
      exact ih h
    | false =>
      simp only [hempty, Bool.false_eq_true, if_false] at h ⊢
      cases hline : readLine l with
      | error f => simp [hline] at h
      | ok o =>
        cases o with
        | none =>
          simp only [hline] at h ⊢
          exact ih h
        | some e =>
          simp only [hline] at h ⊢
          obtain ⟨hfault, hprefix⟩ := ih h
          exact ⟨hfault, List.prefix_cons_inj e |>.2 hprefix⟩

/-- If nothing is wrong with a recording, nothing is wrong with its beginning. -/
lemma isPrefix_read {s t : Bytes} (h : (read (s ++ t)).2 = none) :
    (read s).2 = none ∧ (read s).1 <+: (read (s ++ t)).1 := by
  obtain ⟨rest, hrest⟩ : (fullLines s).tail <+: (fullLines (s ++ t)).tail := by
    simpa using (isPrefix_fullLines s t).drop 1
  rw [read, ← hrest] at h
  rw [read, read, ← hrest]
  exact readLines_append h

end Asciicast

/-! ### Both formats -/

lemma fault_read_bytes (format : Format) (es : List Entry) :
    (format.read (format.bytes none es)).2 = none := by
  cases format with
  | uml => rfl
  | asciicast =>
    cases es with
    | nil => rfl
    | cons e es => rw [Format.read, Asciicast.read_bytes]

/-- The beginning of a recording, cut at any byte, is replayed without a fault and delivers the
beginning of what the whole recording delivers. -/
theorem isPrefix_replay_take (format : Format) (es : List Entry) (n : Nat) :
    (replay format ((format.write es).take n)).2 = none ∧
      (replay format ((format.write es).take n)).1 <+: (replay format (format.write es)).1 := by
  have hfault := fault_read_bytes format es
  simp only [replay_eq, Format.write_eq]
  rw [← List.take_append_drop n (format.bytes none es)] at hfault
  have hread : (format.read ((format.bytes none es).take n)).2 = none ∧
      (format.read ((format.bytes none es).take n)).1 <+:
        (format.read (format.bytes none es)).1 := by
    conv => enter [2, 2]; rw [← List.take_append_drop n (format.bytes none es)]
    cases format with
    | uml => exact ⟨rfl, Uml.isPrefix_read _ _⟩
    | asciicast => exact Asciicast.isPrefix_read hfault
  exact ⟨by rw [hread.1]; rfl, hread.2⟩

end Recording

end ConsoleShell
