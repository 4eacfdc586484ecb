/-
Where streams lead while redirections are active.

A redirection remembers the stream that it replaced, so whether redirections are active can be
read off what they remember.  Leading the streams to targets that they already lead to changes
nothing, leading them back leaves redirections at rest, and in between the stream of a descriptor
is the target of its redirection.  Only descriptors 0, 1 and 2 have streams: the others are
opened and closed, but nothing is led to them.
-/
import ConsoleShell.Proofs.Shell.Redirection

namespace ConsoleShell

namespace Streams

variable {α : Type} (s : Streams α)

lemma get?_set_self {fd : Int} {old x : α} (h : s.get? fd = some old) :
    (s.set fd x).get? fd = some x := by
  unfold get? at h
  split at h <;> first | rfl | cases h

lemma get?_set_of_ne {fd fd' : Int} (h : fd' ≠ fd) (x : α) : (s.set fd x).get? fd' = s.get? fd' := by
  unfold set
  split <;> unfold get? <;> split <;> first | rfl | exact absurd rfl h

lemma isSome_get? (t : Streams α) (fd : Int) : (s.get? fd).isSome = (t.get? fd).isSome := by
  unfold get?
  split <;> rfl

lemma get?_of_two_lt {fd : Nat} (h : 2 < fd) : s.get? fd = none := by
  unfold get?
  split <;> first | rfl | omega

lemma set_of_two_lt {fd : Nat} (h : 2 < fd) (x : α) : s.set fd x = s := by
  unfold set
  split <;> first | rfl | omega

end Streams

namespace Redirects

/-! ### Redirections at rest -/

/-- The redirections with their targets, remembering no streams. -/
def atRest (rs : Redirects) : Redirects := rs.map fun a => { a with saved := none }

lemma fds_atRest (rs : Redirects) : rs.atRest.fds = rs.fds := by
  simp [atRest, fds]

lemma idle_atRest {rs : Redirects} (h : rs.fds.Nodup) : Idle rs.atRest where
  nodup := by rwa [fds_atRest]
  saved := by simp [atRest]

lemma handle?_cons (a : Attachment) (rs : Redirects) (fd : Nat) :
    handle? (a :: rs) fd = if a.redirection.fd = fd then a.handle else rs.handle? fd := by
  unfold handle?
  split_ifs with h
  · rw [List.find?_cons_of_pos (by simp [h]), Option.bind_some]
  · rw [List.find?_cons_of_neg (by simp [h])]

lemma handle?_atRest (rs : Redirects) (fd : Nat) : rs.atRest.handle? fd = rs.handle? fd := by
  induction rs with
  | nil => rfl
  | cons a rs ih =>
    show handle? (_ :: atRest rs) fd = _
    rw [handle?_cons, handle?_cons, ih]

lemma handle?_eq_none {rs : Redirects} {fd : Nat} (h : fd ∉ rs.fds) : rs.handle? fd = none := by
  induction rs with
  | nil => rfl
  | cons a rs ih =>
    obtain ⟨hne, hrest⟩ := not_or.1 (mt List.mem_cons.2 h)
    rw [handle?_cons, if_neg (Ne.symm hne), ih hrest]

/-! ### Leading streams there -/

/-- The stream of a redirected descriptor is its target, the other streams stay. -/
lemma get?_activate {rs : Redirects} (h : Idle rs) (s : Streams Endpoint) (fd : Nat) :
    (activate rs s).2.get? fd =
      (s.get? fd).map fun old => (rs.handle? fd).elim old Endpoint.file := by
  induction rs generalizing s with
  | nil => simp [activate, handle?]
  | cons a rs ih =>
    have hfd : a.redirection.fd ∉ Redirects.fds rs := (List.nodup_cons.1 h.nodup).1
    rw [activate, handle?_cons]
    simp only
    split
    · rename_i target old _ _ hold
      -- no further redirection is on this descriptor, so its stream stays at the target
      rw [ih h.tail]
      split_ifs with heq
      · subst heq
        rw [s.get?_set_self hold, handle?_eq_none hfd, hold, ‹a.handle = some target›]
        rfl
      · rw [s.get?_set_of_ne (by simpa using Ne.symm heq)]
    · rename_i hskip
      rw [ih h.tail]
      split_ifs with heq
      · -- it was skipped for want of a target or of a stream
        subst heq
        rw [handle?_eq_none hfd]
        cases hold : s.get? (a.redirection.fd : Int) with
        | none => rfl
        | some old =>
          cases htarget : a.handle with
          | none => rfl
          | some target => exact (hskip target old htarget (h.saved a List.mem_cons_self) hold).elim
      · rfl

/-- Where nothing can be led, nothing is. -/
lemma activate_cons_of_skip {a : Attachment} {s : Streams Endpoint}
    (h : ¬ (a.handle.isSome ∧ a.saved = none ∧ (s.get? a.redirection.fd).isSome)) (rs : Redirects) :
    activate (a :: rs) s = (a :: (activate rs s).1, (activate rs s).2) := by
  rw [activate]
  split
  · rename_i htarget hsaved hold
    exact absurd ⟨by simp [htarget], hsaved, by simp [hold]⟩ h
  · rfl

/-- Leading the streams there again changes nothing, wherever they lead meanwhile. -/
lemma activate_again (rs : Redirects) (s s' : Streams Endpoint) :
    activate (activate rs s).1 s' = ((activate rs s).1, s') := by
  induction rs generalizing s with
  | nil => rfl
  | cons a rs ih =>
    by_cases hlead : a.handle.isSome ∧ a.saved = none ∧ (s.get? a.redirection.fd).isSome
    · obtain ⟨target, htarget⟩ := Option.isSome_iff_exists.1 hlead.1
      obtain ⟨old, hold⟩ := Option.isSome_iff_exists.1 hlead.2.2
      simp only [activate, htarget, hlead.2.1, hold, ih]
    · -- what was skipped is skipped again, as which descriptors have a stream never changes
      rw [activate_cons_of_skip hlead]
      rw [s.isSome_get? s'] at hlead
      rw [activate_cons_of_skip hlead, ih]

lemma atRest_activate {rs : Redirects} (h : ∀ a ∈ rs, a.saved = none) (s : Streams Endpoint) :
    (activate rs s).1.atRest = rs := by
  induction rs generalizing s with
  | nil => rfl
  | cons a rs ih =>
    have ha : { a with saved := none } = a := by
      rw [← h a List.mem_cons_self]
    have hrest := ih fun b hb => h b (List.mem_cons_of_mem a hb)
    rw [activate]
    split
    · exact congrArg₂ List.cons ha (hrest _)
    · exact congrArg₂ List.cons ha (hrest _)

/-! ### Leading streams back -/

/-- Redirections that led streams back are at rest. -/
lemma fst_restore (rs : Redirects) (s : Streams Endpoint) : (restore rs s).1 = rs.atRest := by
  induction rs generalizing s with
  | nil => rfl
  | cons a rs ih =>
    unfold restore
    split
    · exact congrArg (List.cons _) (ih _)
    · rename_i hsaved
      refine congrArg₂ List.cons ?_ (ih _)
      rw [← hsaved]

lemma fds_restore (rs : Redirects) (s : Streams Endpoint) : (restore rs s).1.fds = rs.fds := by
  rw [fst_restore, fds_atRest]

/-! ### Descriptors without a stream -/

/-- The redirections of descriptors that have a stream. -/
def standard (rs : Redirects) : Redirects := List.filter (fun a => a.redirection.fd ≤ 2) rs

lemma activate_standard (rs : Redirects) (s : Streams Endpoint) :
    (activate rs.standard s).2 = (activate rs s).2 := by
  induction rs generalizing s with
  | nil => rfl
  | cons a rs ih =>
    by_cases hfd : a.redirection.fd ≤ 2
    · rw [standard, List.filter_cons_of_pos (by simpa using hfd), activate, activate]
      split
      · exact ih _
      · exact ih _
    · rw [standard, List.filter_cons_of_neg (by simpa using hfd),
        activate_cons_of_skip (by simp [s.get?_of_two_lt (not_le.1 hfd)])]
      exact ih s

lemma restore_standard (rs : Redirects) (s : Streams Endpoint) :
    (restore rs.standard s).2 = (restore rs s).2 := by
  induction rs generalizing s with
  | nil => rfl
  | cons a rs ih =>
    by_cases hfd : a.redirection.fd ≤ 2
    · rw [standard, List.filter_cons_of_pos (by simpa using hfd), restore, restore]
      split
      · exact ih _
      · exact ih _
    · rw [standard, List.filter_cons_of_neg (by simpa using hfd), restore]
      split
      · rw [s.set_of_two_lt (not_le.1 hfd)]
        exact ih s
      · exact ih s

end Redirects

end ConsoleShell
