/-
Redirections there and back.

The targets of a line are opened, the streams are led to them while its command runs, and
afterwards the streams are led back and the targets are closed.  Leading back undoes leading
there, because the redirections of a line are on distinct descriptors: a stream that two of
them had replaced would otherwise come back as the target of the first.
-/
import ConsoleShell.Proofs.Line.Grammar
import ConsoleShell.Proofs.Shell.Exchange

namespace ConsoleShell

/-! ### Streams -/

namespace Streams

variable {α : Type} (s : Streams α)

lemma set_set (fd : Int) (x y : α) : (s.set fd x).set fd y = s.set fd y := by
  unfold set
  split <;> simp_all

lemma set_get {fd : Int} {x : α} (h : s.get? fd = some x) : s.set fd x = s := by
  unfold get? at h
  split at h
  · exact Option.some.inj h ▸ rfl
  · exact Option.some.inj h ▸ rfl
  · exact Option.some.inj h ▸ rfl
  · cases h

lemma set_comm {fd fd' : Int} (h : fd ≠ fd') (x y : α) :
    (s.set fd x).set fd' y = (s.set fd' y).set fd x := by
  unfold set
  split <;> split <;> first | rfl | exact absurd rfl h

end Streams

namespace Redirects

open Machine

lemma ofList_append (xs ys : List Redirection) : ofList (xs ++ ys) = ofList xs ++ ofList ys :=
  List.map_append

/-! ### Leading streams there and back -/

/-- No descriptor is redirected twice, and no stream is led anywhere yet. -/
structure Idle (rs : Redirects) : Prop where
  nodup : rs.fds.Nodup
  saved : ∀ a ∈ rs, a.saved = none

lemma Idle.tail {a : Attachment} {rs : Redirects} (h : Idle (a :: rs)) : Idle rs where
  nodup := (List.nodup_cons.1 h.nodup).2
  saved := fun b hb => h.saved b (List.mem_cons_of_mem a hb)

lemma idle_ofList {rs : List Redirection} (h : (rs.map Redirection.fd).Nodup) :
    Idle (ofList rs) where
  nodup := by
    rw [fds, ofList, List.map_map]
    exact h
  saved := by
    intro a ha
    obtain ⟨r, -, rfl⟩ := List.mem_map.1 ha
    rfl

lemma Idle.without {rs : Redirects} (h : Idle rs) (fd : Int) : Idle (rs.without fd) where
  nodup := h.nodup.sublist (List.filter_sublist.map _)
  saved := fun a ha => h.saved a (List.mem_filter.1 ha).1

/-- Where nothing was led anywhere, nothing is led back. -/
lemma restore_of_idle {rs : Redirects} (h : Idle rs) (s : Streams Endpoint) :
    (restore rs s).2 = s := by
  induction rs with
  | nil => rfl
  | cons a rs ih =>
    unfold restore
    rw [h.saved a List.mem_cons_self]
    exact ih h.tail

lemma fds_activate (rs : Redirects) (s : Streams Endpoint) : (activate rs s).1.fds = rs.fds := by
  induction rs generalizing s with
  | nil => rfl
  | cons a rs ih =>
    unfold activate
    simp only
    split
    · exact congrArg (a.redirection.fd :: ·) (ih _)
    · exact congrArg (a.redirection.fd :: ·) (ih _)

/-- Streams of other descriptors do not matter for leading back. -/
lemma restore_set {rs : Redirects} {fd : Nat} (h : fd ∉ rs.fds) (s : Streams Endpoint)
    (x : Endpoint) : (restore rs (s.set fd x)).2 = (restore rs s).2.set fd x := by
  induction rs generalizing s with
  | nil => rfl
  | cons a rs ih =>
    obtain ⟨hne, hrest⟩ := not_or.1 (mt List.mem_cons.2 h)
    unfold restore
    split
    · rename_i old _
      have hcomm : (s.set fd x).set a.redirection.fd old = (s.set a.redirection.fd old).set fd x :=
        s.set_comm (fun heq => hne (Int.ofNat.inj heq)) x old
      simp only
      rw [hcomm]
      exact ih hrest _
    · exact ih hrest s

/-- Leading the streams to their targets and back gives the streams at the start. -/
lemma restore_activate {rs : Redirects} (h : Idle rs) (s : Streams Endpoint) :
    (restore (activate rs s).1 (activate rs s).2).2 = s := by
  induction rs generalizing s with
  | nil => rfl
  | cons a rs ih =>
    have hfd : a.redirection.fd ∉ Redirects.fds rs := (List.nodup_cons.1 h.nodup).1
    unfold activate
    simp only
    split
    · rename_i target old _ _ hold
      -- the streams that the rest starts from and comes back to
      have hrest := ih h.tail (s.set a.redirection.fd (.file target))
      show (restore _ (Streams.set _ _ old)).2 = s
      rw [restore_set (by rw [fds_activate]; exact hfd), hrest, Streams.set_set, s.set_get hold]
    · show (restore (a :: _) _).2 = s
      unfold restore
      rw [h.saved a List.mem_cons_self]
      exact ih h.tail s

/-! ### Opening targets -/

variable {σ : Type} [FileBase σ]

/-- An open target belongs to the same redirection. -/
lemma openTarget_eq_ok {resolve : Bytes → Bytes} {a b : Attachment} {m m' : Machine σ}
    (h : openTarget resolve a m = (.ok b, m')) :
    b.redirection = a.redirection ∧ b.saved = a.saved := by
  unfold openTarget at h
  simp only at h
  split_ifs at h
  · cases h
    exact ⟨rfl, rfl⟩
  · cases h
  · split at h
    · cases h
      exact ⟨rfl, rfl⟩
    · cases h

/-- Opening targets changes neither the descriptors nor what is remembered. -/
lemma openTargets_map (resolve : Bytes → Bytes) (rs : Redirects) (m : Machine σ) :
    (openTargets resolve rs m).2.1.map (fun a => (a.redirection, a.saved)) =
      rs.map fun a => (a.redirection, a.saved) := by
  induction rs generalizing m with
  | nil => rfl
  | cons a rs ih =>
    unfold openTargets
    split
    · rfl
    · rename_i heq
      obtain ⟨hr, hs⟩ := openTarget_eq_ok heq
      simp only [List.map_cons, hr, hs, ih]

lemma Idle.of_map {rs rs' : Redirects} (h : Idle rs)
    (heq : rs'.map (fun a => (a.redirection, a.saved)) = rs.map fun a => (a.redirection, a.saved)) :
    Idle rs' where
  nodup := by
    have hfds := congrArg (List.map fun p => p.1.fd) heq
    simp only [List.map_map] at hfds
    have hnodup := h.nodup
    unfold fds at hnodup ⊢
    rw [show rs'.map (fun a => a.redirection.fd) = rs.map fun a => a.redirection.fd from hfds]
    exact hnodup
  saved := by
    intro a ha
    have hmem : (a.redirection, a.saved) ∈ rs.map fun b => (b.redirection, b.saved) :=
      heq ▸ List.mem_map.2 ⟨a, ha, rfl⟩
    obtain ⟨b, hb, hba⟩ := List.mem_map.1 hmem
    rw [← (Prod.mk.inj hba).2]
    exact h.saved b hb

lemma Idle.openAll {resolve : Bytes → Bytes} {rs rs' : Redirects} {m m' : Machine σ} (h : Idle rs)
    (hopen : rs.openAll resolve m = (none, rs', m')) : Idle rs' := by
  unfold Redirects.openAll at hopen
  have hmap := openTargets_map resolve rs m
  split at hopen
  · rename_i heq
    rw [heq] at hmap
    cases hopen
    exact h.of_map hmap
  · cases hopen

end Redirects

end ConsoleShell
