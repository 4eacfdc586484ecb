/-
Redirections inside redirections.

Sets of redirections that share streams each remember for themselves what they replaced.  This
comes out right if the set that was activated last is deactivated first: every descriptor leads to
the target of the innermost active set that redirects it, the streams at the start come back, and
every file is closed once, by the set that opened it.

The invariant behind this is that the active sets are stacked: each remembers the streams that
the sets below it lead to.
-/
import ConsoleShell.Proofs.Redirects.Turns

namespace ConsoleShell

namespace Redirects

variable {σ : Type} [Files σ]

/-! ### Nesting -/

/-- The sets that are open, and those that are active, the innermost first. -/
structure Nesting where
  opened : List Nat := []
  active : List Nat := []

/-- What is open and active next.  A set has to be open to be activated, and an active set is
deactivated only if it is the innermost. -/
def Nesting.step (n : Nesting) : Act → Option Nesting
  | .opens i _ => if i ∈ n.opened then some n else some { n with opened := i :: n.opened }
  | .activates i =>
    if i ∈ n.active then some n
    else if i ∈ n.opened then some { n with active := i :: n.active }
    else none
  | .deactivates i =>
    if i ∈ n.active.tail then none
    else some ⟨n.opened.filter (· ≠ i), n.active.filter (· ≠ i)⟩

/-- What is open and active in the end. -/
def Nesting.run (n : Nesting) (acts : List Act) : Option Nesting := acts.foldlM Nesting.step n

/-! ### Stacked sets -/

/-- Every active set leads the streams away from where the sets below it lead them. -/
inductive Stacked (sets : Nat → Redirects) (original : Streams Endpoint) :
    List Nat → Streams Endpoint → Prop
  | nil : Stacked sets original [] original
  | cons {active : List Nat} {s t : Streams Endpoint} {i : Nat} (hs : Stacked sets original active s)
      (hi : i ∉ active) (h : activate (sets i).atRest s = (sets i, t)) :
      Stacked sets original (i :: active) t

variable {sets : Nat → Redirects} {original : Streams Endpoint} {active : List Nat}
  {s : Streams Endpoint}

/-- What is done with other sets does not matter. -/
lemma Stacked.update (h : Stacked sets original active s) {i : Nat} (hi : i ∉ active)
    (rs : Redirects) : Stacked (Function.update sets i rs) original active s := by
  induction h with
  | nil => exact .nil
  | @cons active s t j hs hj hactivate ih =>
    obtain ⟨hne, hrest⟩ := not_or.1 (mt List.mem_cons.2 hi)
    refine .cons (ih hrest) hj ?_
    rwa [Function.update_of_ne (Ne.symm hne)]

lemma Stacked.activated (h : Stacked sets original active s) {i : Nat} (hi : i ∈ active) :
    ∃ rs s t, activate rs s = (sets i, t) := by
  induction h with
  | nil => simp at hi
  | cons hs hj hactivate ih =>
    rcases List.mem_cons.1 hi with rfl | hi
    · exact ⟨_, _, _, hactivate⟩
    · exact ih hi

/-- Leading the streams back from the innermost set, or from one that is not active, leaves the
other active sets stacked. -/
lemma Stacked.restore (h : Stacked sets original active s) (hfds : ∀ i, (sets i).fds.Nodup) {i : Nat}
    (hsaved : i ∉ active → ∀ a ∈ sets i, a.saved = none) (hi : i ∉ active.tail) :
    Stacked sets original (active.filter (· ≠ i)) (Redirects.restore (sets i) s).2 := by
  by_cases hactive : i ∈ active
  · cases h with
    | nil => simp at hactive
    | @cons active s t j hs hj hactivate =>
      -- the set is the innermost, and its streams go back to where the others lead them
      obtain rfl : i = j := (List.mem_cons.1 hactive).resolve_right hi
      have hback := restore_activate (idle_atRest (hfds i)) s
      rw [hactivate] at hback
      rw [hback, List.filter_cons_of_neg (by simp),
        List.filter_eq_self.2 fun k hk => by simpa using ne_of_mem_of_not_mem hk hi]
      exact hs
  · rw [restore_of_idle ⟨hfds i, hsaved hactive⟩,
      List.filter_eq_self.2 fun k hk => by simpa using ne_of_mem_of_not_mem hk hactive]
    exact h

/-- A descriptor leads to the target of the innermost active set that redirects it. -/
lemma Stacked.get? (h : Stacked sets original active s) (hfds : ∀ i, (sets i).fds.Nodup)
    (fd : Nat) : s.get? fd = (original.get? fd).map fun old =>
      (active.findSome? fun i => (sets i).handle? fd).elim old Endpoint.file := by
  induction h with
  | nil => simp
  | @cons active s t i hs hi hactivate ih =>
    -- what the innermost set leaves alone is decided by the sets below it
    have hget := get?_activate (idle_atRest (hfds i)) s fd
    rw [hactivate, handle?_atRest, ih, Option.map_map] at hget
    rw [hget, List.findSome?_cons]
    cases (sets i).handle? fd <;> rfl

/-! ### The invariant -/

/-- The redirections of a line, with all targets open if the set is open and none otherwise.  Only
an active set remembers streams. -/
structure Kept (line : Line) (opened active : Prop) (rs : Redirects) : Prop where
  redirections : rs.map Attachment.redirection = line.redirections
  handles : opened → ∀ a ∈ rs, a.handle.isSome
  shut : ¬ opened → ∀ a ∈ rs, a.handle = none
  saved : ¬ active → ∀ a ∈ rs, a.saved = none

/-- What holds between two turns. -/
structure Inv (lines : Nat → Line) (original : Streams Endpoint) (n : Nesting) (turns : List Turn)
    (w : SharedSets σ) : Prop where
  kept : ∀ i, Kept (lines i) (i ∈ n.opened) (i ∈ n.active) (w.sets i)
  subset : n.active ⊆ n.opened
  stacked : Stacked w.sets original n.active w.streams
  sound : ∀ t ∈ turns, t.Sound lines
  balance : ∀ i, (callsOf i turns).filterMap openedFile? =
    (callsOf i turns).filterMap closedFile? ++ (w.sets i).held

variable {lines : Nat → Line} {n n' : Nesting} {turns : List Turn} {w : SharedSets σ} {i : Nat}

lemma Kept.eq_ofList {line : Line} {opened active : Prop} {rs : Redirects}
    (h : Kept line opened active rs) (hopened : ¬ opened) (hactive : ¬ active) :
    rs = ofList line.redirections := by
  rw [← h.redirections, ofList, List.map_map]
  refine ((List.map_congr_left fun a ha => ?_).trans (List.map_id rs)).symm
  simp only [Function.comp_apply, id_eq]
  rw [← h.shut hopened a ha, ← h.saved hactive a ha]

lemma kept_ofList {line : Line} {opened active : Prop} (hopened : ¬ opened) :
    Kept line opened active (ofList line.redirections) where
  redirections := by
    rw [ofList, List.map_map]
    exact List.map_id _
  handles h := absurd h hopened
  shut _ := by simp [ofList]
  saved _ := by simp [ofList]

lemma kept_attachments {line : Line} {ts : List Target} {opened active : Prop}
    (h : line.redirections = ts.map Target.redirection) (hopened : opened) :
    Kept line opened active (ts.map Target.attachment) where
  redirections := by
    rw [h, List.map_map]
    rfl
  handles _ := by simp [Target.attachment]
  shut hnot := absurd hopened hnot
  saved _ := by simp [Target.attachment]

/-- What an active set remembers is not restricted. -/
lemma Kept.of_atRest {line : Line} {opened active active' : Prop} {rs : Redirects}
    (h : Kept line opened active rs.atRest) (hactive : active') : Kept line opened active' rs where
  redirections := by
    rw [← h.redirections, atRest, List.map_map]
    rfl
  handles hopened a ha := h.handles hopened { a with saved := none } (List.mem_map_of_mem ha)
  shut hopened a ha := h.shut hopened { a with saved := none } (List.mem_map_of_mem ha)
  saved hnot := absurd hactive hnot

omit [Files σ] in
lemma Inv.start (lines : Nat → Line) (original : Streams Endpoint) (files : σ) :
    Inv lines original {} [] (start lines original files) where
  kept i := kept_ofList List.not_mem_nil
  subset := List.Subset.refl _
  stacked := .nil
  sound := by simp
  balance i := by simp [callsOf, Redirects.start, held, ofList]

omit [Files σ] in
/-- A turn with one set leaves the others as they are. -/
lemma Inv.next (h : Inv lines original n turns w) {t : Turn} {w' : SharedSets σ} {rs : Redirects}
    (hsets : w'.sets = Function.update w.sets t.act.set rs)
    (hothers : ∀ j ≠ t.act.set, (j ∈ n'.opened ↔ j ∈ n.opened) ∧ (j ∈ n'.active ↔ j ∈ n.active))
    (hkept : Kept (lines t.act.set) (t.act.set ∈ n'.opened) (t.act.set ∈ n'.active) rs)
    (hsubset : n'.active ⊆ n'.opened) (hstacked : Stacked w'.sets original n'.active w'.streams)
    (hsound : t.Sound lines) (hbalance : (w.sets t.act.set).held ++ t.calls.filterMap openedFile? =
      t.calls.filterMap closedFile? ++ rs.held) :
    Inv lines original n' (turns ++ [t]) w' where
  kept j := by
    rw [hsets]
    by_cases hj : j = t.act.set
    · rw [hj, Function.update_self]
      exact hkept
    · rw [Function.update_of_ne hj, (hothers j hj).1, (hothers j hj).2]
      exact h.kept j
  subset := hsubset
  stacked := hstacked
  sound := by
    intro u hu
    rcases List.mem_append.1 hu with hu | hu
    · exact h.sound u hu
    · rw [List.mem_singleton.1 hu]
      exact hsound
  balance j := by
    rw [callsOf_concat, hsets, List.filterMap_append, List.filterMap_append, h.balance j]
    by_cases hj : j = t.act.set
    · subst hj
      rw [if_pos rfl, Function.update_self, List.append_assoc, hbalance, List.append_assoc]
    · rw [if_neg (Ne.symm hj), Function.update_of_ne hj]
      simp

omit [Files σ] in
/-- A turn that changes nothing. -/
lemma Inv.next_same (h : Inv lines original n turns w) {t : Turn} (hsound : t.Sound lines)
    (hcalls : t.calls = []) : Inv lines original n (turns ++ [t]) w :=
  h.next (Function.update_eq_self _ _).symm (fun _ _ => ⟨.rfl, .rfl⟩) (h.kept _) h.subset h.stacked
    hsound (by simp [hcalls])

section

variable (hlines : ∀ i, (lines i).redirections.Pairwise fun a b => a.fd < b.fd)
include hlines

omit [Files σ] in
lemma Inv.nodup_fds (h : Inv lines original n turns w) (i : Nat) : (w.sets i).fds.Nodup := by
  have hfds : (w.sets i).fds = (lines i).redirections.map Redirection.fd := by
    rw [← (h.kept i).redirections, List.map_map]
    rfl
  rw [hfds]
  exact List.pairwise_map.2 ((hlines i).imp Nat.ne_of_lt)

lemma Inv.opens (h : Inv lines original n turns w) {resolve : Bytes → Bytes}
    (hstep : n.step (.opens i resolve) = some n')
    (hfault : (turn (.opens i resolve) w).1.fault = none) :
    Inv lines original n' (turns ++ [(turn (.opens i resolve) w).1])
      (turn (.opens i resolve) w).2 := by
  rw [Nesting.step] at hstep
  split_ifs at hstep with hopened
  · obtain rfl := Option.some.inj hstep
    rw [turn_opens_again ((h.kept i).handles hopened)]
    exact h.next_same .openedAgain rfl
  · obtain rfl := Option.some.inj hstep
    -- a set that is not open is as it was at the start, so that all its targets are opened
    have hactive : i ∉ n.active := fun hi => hopened (h.subset hi)
    have hset := (h.kept i).eq_ofList hopened hactive
    obtain ⟨ts, hts, hturn⟩ := turn_opens (hlines i) hset hfault
    rw [hturn]
    refine h.next rfl (fun j hj => ⟨List.mem_cons.trans (or_iff_right hj), .rfl⟩)
      (kept_attachments hts List.mem_cons_self) (List.subset_cons_of_subset i h.subset)
      (h.stacked.update hactive _) (.opened hts) ?_
    show held (w.sets i) ++ _ = _
    rw [hset, held_ofList, openedFile?_targets, closedFile?_targets, held_attachments]

omit hlines in
lemma Inv.activates (h : Inv lines original n turns w)
    (hstep : n.step (.activates i) = some n') :
    Inv lines original n' (turns ++ [(turn (.activates i) w).1]) (turn (.activates i) w).2 := by
  rw [Nesting.step] at hstep
  split_ifs at hstep with hactive hopened
  · obtain rfl := Option.some.inj hstep
    obtain ⟨rs, s, t, hactivate⟩ := h.stacked.activated hactive
    rw [turn_activates_again hactivate]
    exact h.next_same .activated rfl
  · obtain rfl := Option.some.inj hstep
    -- what the set is at rest stays what it was
    have hrest := atRest_activate ((h.kept i).saved hactive) w.streams
    have hkept := h.kept i
    rw [← hrest] at hkept
    refine h.next rfl (fun j hj => ⟨.rfl, List.mem_cons.trans (or_iff_right hj)⟩)
      (hkept.of_atRest List.mem_cons_self) (List.cons_subset.2 ⟨hopened, h.subset⟩)
      (.cons (h.stacked.update hactive _) hactive ?_) .activated ?_
    · simp only [turn, Function.update_self, hrest]
    · show held (w.sets i) ++ [] = [] ++ held (activate (w.sets i) w.streams).1
      rw [List.append_nil, List.nil_append, ← held_atRest (activate (w.sets i) w.streams).1, hrest]

lemma Inv.deactivates (h : Inv lines original n turns w)
    (hstep : n.step (.deactivates i) = some n') :
    Inv lines original n' (turns ++ [(turn (.deactivates i) w).1]) (turn (.deactivates i) w).2 := by
  rw [Nesting.step] at hstep
  split_ifs at hstep with hinner
  obtain rfl := Option.some.inj hstep
  obtain ⟨closings, htargets, hturn⟩ := turn_deactivates w i
  have hstacked := h.stacked.restore (h.nodup_fds hlines) (h.kept i).saved hinner
  -- for other sets nothing changes, and this one is neither open nor active any more
  have hfilter : ∀ (is : List Nat) (j : Nat), j ∈ is.filter (· ≠ i) ↔ j ∈ is ∧ j ≠ i := by
    simp
  have hnot : ∀ is : List Nat, i ∉ is.filter (· ≠ i) := by simp
  rw [hturn, (h.kept i).redirections]
  refine h.next rfl
    (fun j hj => ⟨(hfilter _ j).trans (and_iff_left hj), (hfilter _ j).trans (and_iff_left hj)⟩)
    (kept_ofList (hnot _)) (List.filter_subset _ h.subset) (hstacked.update (hnot _) _) ?_ ?_
  · -- an open set closes the targets of all its redirections, and any other set closes nothing
    by_cases hopened : i ∈ n.opened
    · have hnames := congrArg (List.map Prod.fst) htargets
      rw [map_fst_targets ((h.kept i).handles hopened), (h.kept i).redirections, List.map_map]
        at hnames
      exact .deactivated hnames
    · rw [targets_eq_nil ((h.kept i).shut hopened), List.map_eq_nil_iff] at htargets
      subst htargets
      exact .deactivatedAgain
  · have hfiles := congrArg (List.map Prod.snd) htargets
    rw [map_snd_targets, List.map_map] at hfiles
    show held (w.sets i) ++ _ = _
    rw [openedFile?_closings, closedFile?_closings, held_ofList, ← hfiles]
    rfl

/-- Every turn of a nested sequence keeps the invariant, if no opening fails. -/
lemma Inv.turn (h : Inv lines original n turns w) {a : Act} (hstep : n.step a = some n')
    (hfault : (Redirects.turn a w).1.fault = none) :
    Inv lines original n' (turns ++ [(Redirects.turn a w).1]) (Redirects.turn a w).2 := by
  cases a with
  | opens i resolve => exact h.opens hlines hstep hfault
  | activates i => exact h.activates hstep
  | deactivates i => exact h.deactivates hlines hstep

/-- The invariant holds along every nested sequence. -/
lemma Inv.run (h : Inv lines original n turns w) {acts : List Act} (hrun : n.run acts = some n')
    (hfaults : ∀ t ∈ (Redirects.run acts w).1, t.fault = none) :
    Inv lines original n' (turns ++ (Redirects.run acts w).1) (Redirects.run acts w).2 := by
  induction acts generalizing n turns w with
  | nil =>
    obtain rfl := Option.some.inj hrun
    simpa [Redirects.run] using h
  | cons a acts ih =>
    obtain ⟨n₁, hstep, hrest⟩ := Option.bind_eq_some_iff.1 hrun
    have hnext := h.turn hlines hstep (hfaults _ List.mem_cons_self)
    have hall := ih hnext hrest fun t ht => hfaults t (List.mem_cons_of_mem _ ht)
    rwa [List.append_assoc] at hall

/-! ### Nested sequences -/

/-- What is known after the turns so far, given the sets that are open and active by then. -/
structure Nests (lines : Nat → Line) (original : Streams Endpoint) (n : Nesting)
    (turns : List Turn) (w : SharedSets σ) : Prop where
  /-- A descriptor leads to the target of the innermost active set that redirects it, and if
  there is none, where it led at the start. -/
  leads : ∀ fd : Nat, w.streams.get? fd = (original.get? fd).map fun old =>
    (n.active.findSome? fun i => (w.sets i).handle? fd).elim old Endpoint.file
  /-- Once no set is active, all streams are those at the start. -/
  returned : n.active = [] → w.streams = original
  /-- The redirections of a set are always those of its line, in the same order. -/
  redirections : ∀ i, (w.sets i).map Attachment.redirection = (lines i).redirections
  /-- An open set has an open target for every redirection of its line. -/
  holds : ∀ i ∈ n.opened, ∀ r ∈ (lines i).redirections, ((w.sets i).handle? r.fd).isSome
  /-- Any other set has nothing left. -/
  idle : ∀ i ∉ n.opened, w.sets i = ofList (lines i).redirections
  /-- Targets are opened and closed only in the turns that are for this, and all failures of
  closing are reported together. -/
  sound : ∀ t ∈ turns, t.Sound lines
  /-- The files that were opened for a set are those that were closed for it, in the same order
  and each once, and then those that its redirections lead to now. -/
  balance : ∀ i, (callsOf i turns).filterMap openedFile? =
    (callsOf i turns).filterMap closedFile? ++ (w.sets i).held
  /-- No stream depends on the redirections of descriptors above 2. -/
  spares : ∀ i, (turn (.activates i) w).2.streams = (activate (w.sets i).standard w.streams).2 ∧
    (turn (.deactivates i) w).2.streams = (restore (w.sets i).standard w.streams).2
  /-- Deactivating a set that is not open, such as one that was deactivated, changes nothing and
  reports nothing. -/
  again : ∀ i ∉ n.opened, turn (.deactivates i) w = ({ act := .deactivates i }, w)

lemma Inv.nests (h : Inv lines original n turns w) : Nests lines original n turns w where
  leads := h.stacked.get? (h.nodup_fds hlines)
  returned hnone := by
    have hstacked := h.stacked
    rw [hnone] at hstacked
    cases hstacked
    rfl
  redirections i := (h.kept i).redirections
  holds i hi r hr := isSome_handle? ((h.kept i).handles hi) (by rwa [(h.kept i).redirections])
  idle i hi := (h.kept i).eq_ofList hi fun hactive => hi (h.subset hactive)
  sound := h.sound
  balance := h.balance
  spares i := by
    obtain ⟨closings, -, hturn⟩ := turn_deactivates w i
    exact ⟨(activate_standard _ _).symm, by rw [hturn, restore_standard]⟩
  again i hi := by
    have hactive : i ∉ n.active := fun hactive => hi (h.subset hactive)
    obtain ⟨closings, htargets, hturn⟩ := turn_deactivates w i
    rw [targets_eq_nil ((h.kept i).shut hi), List.map_eq_nil_iff] at htargets
    subst htargets
    rw [(h.kept i).redirections, ← (h.kept i).eq_ofList hi hactive, Function.update_eq_self,
      restore_of_idle ⟨h.nodup_fds hlines i, (h.kept i).saved hactive⟩] at hturn
    exact hturn

end

lemma run_append (acts acts' : List Act) (w : SharedSets σ) :
    (run (acts ++ acts') w).1 = (run acts w).1 ++ (run acts' (run acts w).2).1 := by
  induction acts generalizing w with
  | nil => rfl
  | cons a acts ih => exact congrArg (List.cons _) (ih _)

/-- A part of a nested sequence is nested, and no opening fails in it either. -/
lemma exists_nests (hlines : ∀ i, (lines i).redirections.Pairwise fun a b => a.fd < b.fd)
    (original : Streams Endpoint) (files : σ) {acts : List Act}
    (hnested : (Nesting.run {} acts).isSome)
    (hfaults : ∀ t ∈ (run acts (start lines original files)).1, t.fault = none)
    {done : List Act} (hdone : done <+: acts) :
    ∃ n, Nesting.run {} done = some n ∧
      Nests lines original n (run done (start lines original files)).1
        (run done (start lines original files)).2 := by
  obtain ⟨rest, rfl⟩ := hdone
  obtain ⟨n', hrun⟩ := Option.isSome_iff_exists.1 hnested
  rw [Nesting.run, List.foldlM_append] at hrun
  obtain ⟨n, hdone, -⟩ := Option.bind_eq_some_iff.1 hrun
  rw [run_append] at hfaults
  have hinv := (Inv.start lines original files).run hlines hdone
    fun t ht => hfaults t (List.mem_append_left _ ht)
  exact ⟨n, hdone, hinv.nests hlines⟩

/-- At every point of a nested sequence in which no opening fails, with any number of lines, any
streams and files of any kind, the streams lead to the innermost targets, and every file that was
opened is held by the set that opened it or was closed by it.  Closing may fail. -/
theorem nests_of_nested {texts : Nat → Bytes} (hsplit : ∀ i, Line.split (texts i) = .ok (lines i))
    (original : Streams Endpoint) (files : σ) {acts : List Act}
    (hnested : (Nesting.run {} acts).isSome)
    (hfaults : ∀ t ∈ (run acts (start lines original files)).1, t.fault = none)
    {done : List Act} (hdone : done <+: acts) :
    ∃ n, Nesting.run {} done = some n ∧
      Nests lines original n (run done (start lines original files)).1
        (run done (start lines original files)).2 :=
  exists_nests (fun i => Line.pairwise_fds_of_split (hsplit i)) original files hnested hfaults hdone

/-- A line inside another line, both of which redirect the output; closing its target fails. -/
theorem nests_of_nested_output :
    let line (i : Nat) : Line := if i = 0
      then ⟨["a"], [⟨1, .write, "/x"⟩, ⟨2, .append, "/e"⟩]⟩
      else ⟨["b"], [⟨1, .write, "/y"⟩, ⟨5, .write, "/z"⟩]⟩
    let files : Machine := { host :=
      { store := { entries := [("/", .directory)] }, failing := ["/y"] } }
    let acts : List Act := [.opens 0 id, .activates 0, .opens 1 id, .activates 1, .deactivates 1,
      .deactivates 0]
    let w := start line ⟨.session, .session, .session⟩ files
    (∀ i, Line.split (if i = 0 then "a > /x 2>> /e" else "b 5> /z > /y") = .ok (line i)) ∧
    (run acts w).1.flatMap Turn.faults = [⟨"/y", .diskFull⟩] ∧
    ∀ done, done <+: acts → ∃ n, Nesting.run {} done = some n ∧
      Nests line ⟨.session, .session, .session⟩ n (run done w).1 (run done w).2 := by
  intro line files acts w
  have hsplit : ∀ i, Line.split (if i = 0 then "a > /x 2>> /e" else "b 5> /z > /y") =
      .ok (line i) := by
    intro i
    by_cases hi : i = 0
    · rw [if_pos hi, show line i = line 0 from congrArg line hi]
      decide +kernel
    · rw [if_neg hi, show line i = line 1 from (if_neg hi).trans rfl]
      decide +kernel
  have hfaults : (run acts w).1.all (fun t => t.fault == none) = true := by decide +kernel
  refine ⟨hsplit, by decide +kernel, fun done hdone => ?_⟩
  exact nests_of_nested hsplit _ files (by decide +kernel)
    (fun t ht => eq_of_beq (List.all_eq_true.1 hfaults t ht)) hdone

/-- **The redirections of lines in a shell.**  Where a shell opens the targets of lines, leads its
streams there and back and closes the targets in a nested sequence, and no opening fails, its
streams and its files are at every point those that the sets of redirections share: the streams
lead to the innermost targets and come back in the end, and every file that was opened is held or
was closed once. -/
theorem shell_nests {β : Type} [FileBase β] {texts : Nat → Bytes}
    (hsplit : ∀ i, Line.split (texts i) = .ok (lines i)) (m : Machine β) {acts : List Act}
    (hnested : (Nesting.run {} acts).isSome)
    (hfaults : ∀ report ∈ (shellRun acts (fun i => ofList (lines i).redirections, m)).1,
      report.1 = none)
    {done : List Act} (hdone : done <+: acts) :
    ∃ n turns w, Nesting.run {} done = some n ∧
      shellRun done (fun i => ofList (lines i).redirections, m) =
        (turns.map Turn.report, w.sets, w.machine) ∧
      Nests lines m.shell.streams n turns w := by
  have hrun := fun acts => shellRun_eq_run acts (start lines m.shell.streams m)
  have hopened : ∀ t ∈ (run acts (start lines m.shell.streams m)).1, t.fault = none := by
    intro t ht
    refine hfaults t.report ?_
    have hreports := congrArg Prod.fst (hrun acts)
    exact hreports ▸ List.mem_map_of_mem ht
  obtain ⟨n, hdone', hnests⟩ := exists_nests (fun i => Line.pairwise_fds_of_split (hsplit i))
    m.shell.streams m hnested hopened hdone
  exact ⟨n, _, _, hdone', hrun done, hnests⟩

end Redirects

end ConsoleShell
