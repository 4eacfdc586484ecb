/-
Sets of redirections that share streams.

A line can run a script whose lines are redirected in turn, so that any number of sets of
redirections are open and active at the same time.  All of them lead the same three streams and
use the same files.  This file says what it does to the sets, to the streams and to the files when
one of the sets is opened, activated or deactivated, and that a shell that does so with the sets
of its lines does the same to its own streams and files.
-/
import ConsoleShell.Proofs.Redirects.Activation
import ConsoleShell.Proofs.Redirects.Opening

namespace ConsoleShell

namespace Redirects

/-! ### Sets that share streams -/

/-- What is done with one of several sets. -/
inductive Act where
  | opens (set : Nat) (resolve : Bytes → Bytes)
  | activates (set : Nat)
  | deactivates (set : Nat)

/-- The set that something is done with. -/
def Act.set : Act → Nat
  | .opens i _ => i
  | .activates i => i
  | .deactivates i => i

/-- Sets of redirections with the streams and the files that they share. -/
structure SharedSets (σ : Type) where
  sets : Nat → Redirects
  streams : Streams Endpoint
  files : σ

/-- Something that was done, what the files were asked for, and what is reported. -/
structure Turn where
  act : Act
  calls : List FileCall := []
  fault : Option RedirectionFault := none
  faults : List ClosingFault := []

variable {σ : Type} [Files σ]

/-- Does something with one of the sets. -/
def turn : Act → SharedSets σ → Turn × SharedSets σ
  | .opens i resolve, w =>
    let (fault, rs, l) := openAll resolve (w.sets i) (⟨w.files, []⟩ : Ledger σ)
    ({ act := .opens i resolve, calls := l.calls, fault },
      { w with sets := Function.update w.sets i rs, files := l.files })
  | .activates i, w =>
    let (rs, streams) := activate (w.sets i) w.streams
    ({ act := .activates i }, { w with sets := Function.update w.sets i rs, streams })
  | .deactivates i, w =>
    let (rs, streams) := restore (w.sets i) w.streams
    let (faults, rs, l) := close rs (⟨w.files, []⟩ : Ledger σ)
    ({ act := .deactivates i, calls := l.calls, faults },
      { sets := Function.update w.sets i rs, streams, files := l.files })

/-- Does one thing after the other. -/
def run : List Act → SharedSets σ → List Turn × SharedSets σ
  | [], w => ([], w)
  | a :: acts, w =>
    let (t, w) := turn a w
    let (turns, w) := run acts w
    (t :: turns, w)

/-- The sets of lines, of which nothing is open. -/
def start (lines : Nat → Line) (streams : Streams Endpoint) (files : σ) : SharedSets σ :=
  { sets := fun i => ofList (lines i).redirections, streams, files }

/-! ### The sets of a shell -/

section

variable {β : Type}

/-- The machine of a shell whose streams and files are shared by the sets. -/
def SharedSets.machine (w : SharedSets (Machine β)) : Machine β := w.files.withStreams w.streams

variable [FileBase β]

/-- Does something with one of the sets of a shell: their targets are opened, the shell's streams
are led to them, or the streams are led back and the targets closed. -/
def shellTurn : Act → (Nat → Redirects) × Machine β →
    (Option RedirectionFault × List ClosingFault) × (Nat → Redirects) × Machine β
  | .opens i resolve, (sets, m) =>
    let (fault, rs, m) := (sets i).openAll resolve m
    ((fault, []), Function.update sets i rs, m)
  | .activates i, (sets, m) =>
    let (rs, m) := (sets i).attach m
    ((none, []), Function.update sets i rs, m)
  | .deactivates i, (sets, m) =>
    let (faults, rs, m) := (sets i).detach m
    ((none, faults), Function.update sets i rs, m)

/-- Does one thing after the other. -/
def shellRun : List Act → (Nat → Redirects) × Machine β →
    List (Option RedirectionFault × List ClosingFault) × (Nat → Redirects) × Machine β
  | [], s => ([], s)
  | a :: acts, s =>
    let (report, s) := shellTurn a s
    let (reports, s) := shellRun acts s
    (report :: reports, s)

/-- What is reported of a turn. -/
def Turn.report (t : Turn) : Option RedirectionFault × List ClosingFault := (t.fault, t.faults)

variable (w : SharedSets (Machine β))

lemma openAll_eq_turn (i : Nat) (resolve : Bytes → Bytes) :
    (w.sets i).openAll resolve w.machine =
      let (t, w) := turn (.opens i resolve) w
      (t.fault, w.sets i, w.machine) := by
  have hstreams := (Machine.maps_withStreams w.streams).openAll resolve (w.sets i) w.files
  have hledger := Ledger.maps_files.openAll resolve (w.sets i) (⟨w.files, []⟩ : Ledger (Machine β))
  simp only [turn, Function.update_self]
  refine hstreams.trans ?_
  rw [hledger]
  rfl

lemma attach_eq_turn (i : Nat) :
    (w.sets i).attach w.machine =
      let w := (turn (.activates i) w).2
      (w.sets i, w.machine) := by
  simp [turn, attach, SharedSets.machine, Machine.withStreams]

lemma detach_eq_turn (i : Nat) :
    (w.sets i).detach w.machine =
      let (t, w) := turn (.deactivates i) w
      (t.faults, w.sets i, w.machine) := by
  have hstreams := (Machine.maps_withStreams (restore (w.sets i) w.streams).2).close
    (restore (w.sets i) w.streams).1 w.files
  have hledger := Ledger.maps_files.close (restore (w.sets i) w.streams).1
    (⟨w.files, []⟩ : Ledger (Machine β))
  simp only [turn, Function.update_self]
  rw [detach]
  refine hstreams.trans ?_
  rw [hledger]
  rfl

/-- A shell takes the turns of sets that share its streams and files. -/
lemma shellTurn_eq_turn (a : Act) :
    shellTurn a (w.sets, w.machine) =
      ((turn a w).1.report, (turn a w).2.sets, (turn a w).2.machine) := by
  cases a with
  | opens i resolve =>
    rw [shellTurn, openAll_eq_turn]
    simp [turn, Turn.report]
  | activates i =>
    rw [shellTurn, attach_eq_turn]
    simp [turn, Turn.report]
  | deactivates i =>
    rw [shellTurn, detach_eq_turn]
    simp [turn, Turn.report]

lemma shellRun_eq_run (acts : List Act) (w : SharedSets (Machine β)) :
    shellRun acts (w.sets, w.machine) =
      ((run acts w).1.map Turn.report, (run acts w).2.sets, (run acts w).2.machine) := by
  induction acts generalizing w with
  | nil => rfl
  | cons a acts ih => simp only [shellRun, run, shellTurn_eq_turn, ih, List.map_cons]

end

/-! ### One turn -/

lemma targets_atRest (rs : Redirects) : rs.atRest.targets = rs.targets := by
  rw [targets, targets, atRest, List.filterMap_map]
  rfl

lemma shut_atRest (rs : Redirects) : rs.atRest.shut = ofList (rs.map Attachment.redirection) := by
  rw [shut, atRest, ofList, List.map_map, List.map_map]
  rfl

lemma targets_eq_nil {rs : Redirects} (h : ∀ a ∈ rs, a.handle = none) : rs.targets = [] := by
  rw [targets, List.filterMap_eq_nil_iff]
  intro a ha
  rw [h a ha, Option.map_none]

variable {w : SharedSets σ} {i : Nat}

/-- Targets that are open are not opened again. -/
lemma openTargets_of_isSome {rs : Redirects} (h : ∀ a ∈ rs, a.handle.isSome)
    (resolve : Bytes → Bytes) (s : σ) : openTargets resolve rs s = (none, rs, s) := by
  induction rs with
  | nil => rfl
  | cons a rs ih =>
    rw [openTargets, openTarget, if_pos (h a List.mem_cons_self)]
    simp only [ih fun b hb => h b (List.mem_cons_of_mem a hb)]

/-- Opening a set that is open does nothing. -/
lemma turn_opens_again (h : ∀ a ∈ w.sets i, a.handle.isSome) (resolve : Bytes → Bytes) :
    turn (.opens i resolve) w = ({ act := .opens i resolve }, w) := by
  simp only [turn, openAll, openTargets_of_isSome h, Function.update_eq_self]

/-- Opening a set that is not open opens all its targets, unless it fails. -/
lemma turn_opens {rs : List Redirection} (hrs : rs.Pairwise fun a b => a.fd < b.fd)
    (h : w.sets i = ofList rs) {resolve : Bytes → Bytes}
    (hfault : (turn (.opens i resolve) w).1.fault = none) :
    ∃ ts : List Target, rs = ts.map Target.redirection ∧ turn (.opens i resolve) w =
      ({ act := .opens i resolve, calls := ts.map (Target.call resolve) },
        { w with
          sets := Function.update w.sets i (ts.map Target.attachment)
          files := Ledger.replay (ts.map (Target.call resolve)) w.files }) := by
  obtain ⟨fault, rs', calls, hopening, hopen⟩ :=
    openAll_ledger hrs resolve (⟨w.files, []⟩ : Ledger σ)
  simp only [turn, h, hopen] at hfault ⊢
  obtain rfl : fault = none := hfault
  cases hopening with
  | opened hts _ => exact ⟨_, hts, rfl⟩

/-- Activating a set that is active does nothing. -/
lemma turn_activates_again {rs : Redirects} {s t : Streams Endpoint}
    (h : activate rs s = (w.sets i, t)) :
    turn (.activates i) w = ({ act := .activates i }, w) := by
  have hagain := activate_again rs s w.streams
  rw [h] at hagain
  simp only [turn, hagain, Function.update_eq_self]

/-- Deactivating a set closes all its open targets. -/
lemma turn_deactivates (w : SharedSets σ) (i : Nat) :
    ∃ closings : List Closing,
      closings.map (fun c => (c.name, c.file)) = (w.sets i).targets ∧ turn (.deactivates i) w =
        ({ act := .deactivates i, calls := closings.map Closing.call,
           faults := closings.filterMap Closing.fault? },
          { sets := Function.update w.sets i (ofList ((w.sets i).map Attachment.redirection))
            streams := (restore (w.sets i) w.streams).2
            files := Ledger.replay (closings.map Closing.call) w.files }) := by
  obtain ⟨closings, htargets, hclose⟩ := close_ledger (w.sets i).atRest (⟨w.files, []⟩ : Ledger σ)
  rw [targets_atRest] at htargets
  refine ⟨closings, htargets, ?_⟩
  simp only [turn, fst_restore, hclose, shut_atRest]
  rfl

/-! ### What is asked for and what is held -/

/-- The number of the file that was opened. -/
def openedFile? : FileCall → Option Nat
  | .opened _ _ (.ok file) => some file
  | _ => none

/-- The number of the file that was closed. -/
def closedFile? : FileCall → Option Nat
  | .closed file _ => some file
  | _ => none

/-- What the files were asked for in the turns of a set. -/
def callsOf (i : Nat) (turns : List Turn) : List FileCall :=
  (turns.filter fun t => t.act.set = i).flatMap Turn.calls

/-- The open files. -/
def held (rs : Redirects) : List Nat := rs.filterMap Attachment.handle

lemma held_atRest (rs : Redirects) : rs.atRest.held = rs.held := by
  rw [held, held, atRest, List.filterMap_map]
  rfl

lemma held_ofList (rs : List Redirection) : held (ofList rs) = [] := by
  simp [held, ofList]

lemma held_attachments (ts : List Target) :
    held (ts.map Target.attachment) = ts.map Target.file := by
  rw [held, List.filterMap_map, ← List.filterMap_eq_map]
  rfl

lemma callsOf_concat (i : Nat) (turns : List Turn) (t : Turn) :
    callsOf i (turns ++ [t]) = callsOf i turns ++ if t.act.set = i then t.calls else [] := by
  rw [callsOf, List.filter_append, List.flatMap_append, List.filter_singleton, callsOf]
  split_ifs <;> simp_all

lemma openedFile?_targets (resolve : Bytes → Bytes) (ts : List Target) :
    (ts.map (Target.call resolve)).filterMap openedFile? = ts.map Target.file := by
  rw [List.filterMap_map, ← List.filterMap_eq_map]
  rfl

lemma closedFile?_targets (resolve : Bytes → Bytes) (ts : List Target) :
    (ts.map (Target.call resolve)).filterMap closedFile? = [] := by
  rw [List.filterMap_map, List.filterMap_eq_nil_iff]
  exact fun _ _ => rfl

lemma openedFile?_closings (closings : List Closing) :
    (closings.map Closing.call).filterMap openedFile? = [] := by
  rw [List.filterMap_map, List.filterMap_eq_nil_iff]
  exact fun _ _ => rfl

lemma closedFile?_closings (closings : List Closing) :
    (closings.map Closing.call).filterMap closedFile? = closings.map Closing.file := by
  rw [List.filterMap_map, ← List.filterMap_eq_map]
  rfl

lemma map_snd_targets (rs : Redirects) : rs.targets.map Prod.snd = rs.held := by
  rw [targets, List.map_filterMap, held]
  exact List.filterMap_congr fun a _ => by cases a.handle <;> rfl

lemma map_fst_targets {rs : Redirects} (h : ∀ a ∈ rs, a.handle.isSome) :
    rs.targets.map Prod.fst = (rs.map Attachment.redirection).map Redirection.name := by
  rw [targets, List.map_filterMap, List.map_map, ← List.filterMap_eq_map]
  refine List.filterMap_congr fun a ha => ?_
  obtain ⟨file, hfile⟩ := Option.isSome_iff_exists.1 (h a ha)
  rw [hfile]
  rfl

lemma isSome_handle? {rs : Redirects} (h : ∀ a ∈ rs, a.handle.isSome) {r : Redirection}
    (hr : r ∈ rs.map Attachment.redirection) : (rs.handle? r.fd).isSome := by
  induction rs with
  | nil => simp at hr
  | cons a rs ih =>
    rw [handle?_cons]
    split_ifs with hfd
    · exact h a List.mem_cons_self
    · refine ih (fun b hb => h b (List.mem_cons_of_mem a hb)) ?_
      exact (List.mem_cons.1 hr).resolve_left fun heq => hfd (heq ▸ rfl)

/-- What a turn may ask the files for and report, for sets that belong to lines. -/
inductive Turn.Sound (lines : Nat → Line) : Turn → Prop
  /-- The targets of the line are opened in order, in the modes of their redirections. -/
  | opened {i : Nat} {resolve : Bytes → Bytes} {ts : List Target}
      (h : (lines i).redirections = ts.map Target.redirection) :
      Sound lines { act := .opens i resolve, calls := ts.map (Target.call resolve) }
  | openedAgain {i : Nat} {resolve : Bytes → Bytes} : Sound lines { act := .opens i resolve }
  | activated {i : Nat} : Sound lines { act := .activates i }
  /-- All targets of the line are closed, whether or not that fails, and all failures are
  reported. -/
  | deactivated {i : Nat} {closings : List Closing}
      (h : closings.map Closing.name = (lines i).redirections.map Redirection.name) :
      Sound lines { act := .deactivates i, calls := closings.map Closing.call,
                    faults := closings.filterMap Closing.fault? }
  | deactivatedAgain {i : Nat} : Sound lines { act := .deactivates i }

end Redirects

end ConsoleShell
