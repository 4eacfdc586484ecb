/-
All targets of a line or none.

The targets of a line are opened in the order of their descriptors.  Either all of them are open
afterwards, or the first that cannot be opened is reported and none is: those before it are
closed again, and those after it are not touched.
-/
import ConsoleShell.Proofs.Redirects.Ledger

namespace ConsoleShell

namespace Redirects

variable {σ : Type} [Files σ] {resolve : Bytes → Bytes}

/-! ### Targets -/

/-- A target that was opened: its redirection and the number of its file. -/
structure Target where
  redirection : Redirection
  file : Nat

/-- The redirection with its open target. -/
def Target.attachment (t : Target) : Attachment :=
  { redirection := t.redirection, handle := some t.file }

/-- What the files were asked for. -/
def Target.call (resolve : Bytes → Bytes) (t : Target) : FileCall :=
  .opened (resolve t.redirection.name) t.redirection.mode.flags (.ok t.file)

/-- The target of a redirection cannot be opened, for a reason that the files have given when
they were asked.  A target without a name is not asked for: there is no such file. -/
inductive Refused (resolve : Bytes → Bytes) (r : Redirection) : FileReason → List FileCall → Prop
  | nameless (h : r.name = []) : Refused resolve r .notExist []
  | failed (h : r.name ≠ []) (fault : FileFault) :
      Refused resolve r fault.reason [.opened (resolve r.name) r.mode.flags (.error fault)]

/-- The target of one redirection is opened or refused. -/
lemma openTarget_ledger (resolve : Bytes → Bytes) (r : Redirection) (l : Ledger σ) :
    (∃ t : Target, t.redirection = r ∧ r.name ≠ [] ∧
      openTarget resolve { redirection := r } l = (.ok t.attachment, l.extend [t.call resolve])) ∨
    ∃ reason calls, Refused resolve r reason calls ∧
      openTarget resolve { redirection := r } l = (.error ⟨r.name, reason⟩, l.extend calls) := by
  by_cases hname : r.name = []
  · refine .inr ⟨_, _, .nameless hname, ?_⟩
    simp [openTarget, hname]
  · have hempty : r.name.isEmpty = false := by simpa using hname
    cases hanswer : (Files.openPath (resolve r.name) r.mode.flags l.files).1 with
    | ok file =>
      refine .inl ⟨⟨r, file⟩, rfl, hname, ?_⟩
      simp only [openTarget, Option.isSome_none, Bool.false_eq_true, if_false, hempty,
        Ledger.openPath_eq, hanswer, Target.attachment, Target.call]
    | error fault =>
      refine .inr ⟨_, _, .failed hname fault, ?_⟩
      simp only [openTarget, Option.isSome_none, Bool.false_eq_true, if_false, hempty,
        Ledger.openPath_eq, hanswer]

lemma openTargets_ledger (resolve : Bytes → Bytes) (rs : List Redirection) (l : Ledger σ) :
    (∃ targets : List Target, rs = targets.map Target.redirection ∧ (∀ r ∈ rs, r.name ≠ []) ∧
      openTargets resolve (ofList rs) l = (none, targets.map Target.attachment,
        l.extend (targets.map (Target.call resolve)))) ∨
    ∃ (lower : List Target) (r : Redirection) (higher : List Redirection) (reason : FileReason)
      (calls : List FileCall), rs = lower.map Target.redirection ++ r :: higher ∧
      Refused resolve r reason calls ∧
      openTargets resolve (ofList rs) l = (some ⟨r.name, reason⟩,
        lower.map Target.attachment ++ ofList (r :: higher),
        l.extend (lower.map (Target.call resolve) ++ calls)) := by
  induction rs generalizing l with
  | nil => exact .inl ⟨[], rfl, by simp, by simp [openTargets, ofList]⟩
  | cons r rs ih =>
    have hcons : ofList (r :: rs) = { redirection := r } :: ofList rs := rfl
    rcases openTarget_ledger resolve r l with
      ⟨t, rfl, hname, hopen⟩ | ⟨reason, calls, hrefused, hopen⟩
    · -- the others are opened, and it is they that decide
      rcases ih (l.extend [t.call resolve]) with
        ⟨targets, rfl, hnames, hrest⟩ | ⟨lower, r, higher, reason, calls, rfl, hrefused, hrest⟩
      · refine .inl ⟨t :: targets, rfl, List.forall_mem_cons.2 ⟨hname, hnames⟩, ?_⟩
        rw [hcons, openTargets, hopen]
        simp [hrest]
      · refine .inr ⟨t :: lower, r, higher, reason, calls, rfl, hrefused, ?_⟩
        rw [hcons, openTargets, hopen]
        simp [hrest]
    · -- nothing is asked about the others
      refine .inr ⟨[], r, rs, reason, calls, rfl, hrefused, ?_⟩
      rw [hcons, openTargets, hopen]
      simp [ofList]

/-! ### All targets -/

/-- What opening the targets of redirections comes to: the target that cannot be opened, the
redirections afterwards, and what the files were asked for. -/
inductive Opening (resolve : Bytes → Bytes) (rs : List Redirection) :
    Option RedirectionFault → Redirects → List FileCall → Prop
  /-- Every target is open, in the mode of its redirection. -/
  | opened {targets : List Target} (h : rs = targets.map Target.redirection)
      (hnames : ∀ r ∈ rs, r.name ≠ []) :
      Opening resolve rs none (targets.map Target.attachment) (targets.map (Target.call resolve))
  /-- The targets of all lower descriptors were opened and are closed again, each once, whether
  or not that fails; nothing was asked about those of higher descriptors. -/
  | refused {lower : List Target} {closings : List Closing} {r : Redirection}
      {higher : List Redirection} {reason : FileReason} {calls : List FileCall}
      (h : rs = lower.map Target.redirection ++ r :: higher)
      (hlower : ∀ t ∈ lower, t.redirection.fd < r.fd) (hhigher : ∀ q ∈ higher, r.fd < q.fd)
      (hrefused : Refused resolve r reason calls)
      (hclosings : closings.map Closing.file = lower.map Target.file) :
      Opening resolve rs (some ⟨r.name, reason⟩) (ofList rs)
        (lower.map (Target.call resolve) ++ calls ++ closings.map Closing.call)

lemma targets_append (rs rs' : Redirects) : targets (rs ++ rs') = targets rs ++ targets rs' :=
  List.filterMap_append

lemma shut_append (rs rs' : Redirects) : shut (rs ++ rs') = shut rs ++ shut rs' :=
  List.map_append

lemma targets_ofList (rs : List Redirection) : targets (ofList rs) = [] := by
  simp [targets, ofList]

lemma shut_ofList (rs : List Redirection) : shut (ofList rs) = ofList rs := by
  simp [shut, ofList]

lemma targets_attachments (ts : List Target) :
    targets (ts.map Target.attachment) = ts.map fun t => (t.redirection.name, t.file) := by
  rw [targets, List.filterMap_map, ← List.filterMap_eq_map]
  rfl

lemma shut_attachments (ts : List Target) :
    shut (ts.map Target.attachment) = ofList (ts.map Target.redirection) := by
  rw [shut, ofList, List.map_map, List.map_map]
  rfl

lemma openAll_ledger {rs : List Redirection} (hrs : rs.Pairwise fun a b => a.fd < b.fd)
    (resolve : Bytes → Bytes) (l : Ledger σ) :
    ∃ fault rs' calls, Opening resolve rs fault rs' calls ∧
      openAll resolve (ofList rs) l = (fault, rs', l.extend calls) := by
  rcases openTargets_ledger resolve rs l with
    ⟨targets, htargets, hnames, hopen⟩ | ⟨lower, r, higher, reason, calls, rfl, hrefused, hopen⟩
  · exact ⟨_, _, _, .opened htargets hnames, by simp only [openAll, hopen]⟩
  · -- what is closed again are the targets of the lower descriptors
    obtain ⟨closings, htargets, hclose⟩ := close_ledger
      (lower.map Target.attachment ++ ofList (r :: higher))
      (l.extend (lower.map (Target.call resolve) ++ calls))
    rw [targets_append, targets_ofList, List.append_nil, targets_attachments] at htargets
    rw [shut_append, shut_ofList, shut_attachments, ← ofList_append, Ledger.extend_extend]
      at hclose
    have hfiles : closings.map Closing.file = lower.map Target.file := by
      have hsnd := congrArg (List.map Prod.snd) htargets
      rwa [List.map_map, List.map_map] at hsnd
    rw [List.pairwise_append, List.pairwise_cons] at hrs
    obtain ⟨-, ⟨hhigher, -⟩, hlower⟩ := hrs
    exact ⟨_, _, _, .refused rfl
      (fun t ht => hlower _ (List.mem_map_of_mem ht) _ List.mem_cons_self) hhigher hrefused hfiles,
      by simp only [openAll, hopen, hclose]⟩

end Redirects

end ConsoleShell
