/-
Which lines an invocation handles, and with what result.

An invocation takes its lines in turn.  Before each turn the policy looks at the mark that the
latest line may have left; it can end the invocation, have it wait for a while, or do nothing.
A line can end the invocation, too.  This file says which lines are handled as a property of
the list of turns: each turn goes on from where the one before ended, no turn before the last
one ends the invocation, and nothing after the last one is read or handled.
-/
import ConsoleShell.Proofs.Shell.Invocation

namespace ConsoleShell

/-! ### What the policy does between lines -/

/-- The failure with which the policy ends an invocation before the next line is read. -/
def Scope.ending (s : Scope) : Option Failure :=
  if s.interactive || !s.errored then none
  else match s.policy with
    | .proceed => none
    | .stop => some .stopped
    | .suspend =>
      if s.timeout.isNonPositive || s.timeout.isInfinite then some .suspended else none

/-- The policy has the invocation wait for a fixed time before the next line is read. -/
def Scope.waits (s : Scope) : Bool :=
  !s.interactive && s.errored && s.policy == .suspend && s.isTimed

lemma Scope.waits_iff (s : Scope) : s.waits = true ↔
    ((s.interactive = false ∧ s.errored = true) ∧ s.policy = .suspend) ∧ s.isTimed = true := by
  simp [Scope.waits]

/-- Where the policy neither ends the invocation nor has it wait, it has nothing to look at or
lets the next line come. -/
lemma Scope.passes_of_none {s : Scope} (hending : s.ending = none) (hwaits : s.waits = false) :
    (s.interactive || !s.errored) = true ∨ s.policy = .proceed := by
  cases hmark : (s.interactive || !s.errored) with
  | true => exact .inl rfl
  | false =>
    refine .inr ?_
    obtain ⟨hinteractive, herrored⟩ := Bool.or_eq_false_iff.1 hmark
    rw [Bool.not_eq_false'] at herrored
    cases hpolicy : s.policy with
    | proceed => rfl
    | stop => simp [Scope.ending, hinteractive, hpolicy, herrored] at hending
    | suspend =>
      have htimed : s.isTimed = true := by
        simpa [Scope.ending, Scope.isTimed, hinteractive, hpolicy, herrored] using hending
      simp [Scope.waits, hinteractive, hpolicy, htimed, herrored] at hwaits

namespace Machine

/-- The failure with which the policy ends the innermost invocation now. -/
def ending (m : Machine) : Option Failure := m.shell.scopes.head?.bind Scope.ending

/-- The innermost invocation waits now. -/
def waits (m : Machine) : Bool := m.shell.scopes.head?.any Scope.waits

/-- The machine after the announcement that the innermost invocation waits, if it does. -/
def announce (m : Machine) : Machine :=
  match m.shell.scopes.head? with
  | none => m
  | some s =>
    if s.waits then
      m.writeLine .error (("iocsh Error: Waiting " : Bytes) ++ s.timeout.toOnePlace ++ " sec ...")
    else m

lemma exchange_announce (m : Machine) : Exchange m m.announce := by
  unfold announce
  split
  · exact .refl m
  · split
    · exact Exchange.inputOutput.writeLine _ _ m
    · exact .refl m

/-- The policy does not look at lines of an interactive invocation. -/
lemma ending_of_interactive {m : Machine} (h : m.isInteractive = true) : m.ending = none := by
  unfold isInteractive at h
  unfold ending
  cases hs : m.shell.scopes.head? with
  | none => rfl
  | some s =>
    have hinteractive : s.interactive = true := by simpa [hs] using h
    simp [Scope.ending, hinteractive]

lemma waits_of_interactive {m : Machine} (h : m.isInteractive = true) : m.waits = false := by
  unfold isInteractive at h
  unfold waits
  cases hs : m.shell.scopes.head? with
  | none => rfl
  | some s =>
    have hinteractive : s.interactive = true := by simpa [hs] using h
    simp [Scope.waits, hinteractive]

end Machine

namespace Interpreter

open Machine

/-- The failure that an invocation carries on from one line to the next: it counts as suspended
once it has waited. -/
def carry (m : Machine) (failure : Option Failure) : Option Failure :=
  if m.waits then some .suspended else failure

/-- Ends an invocation as its policy decided. -/
def conclude (invoke : Invoke) (context : Option Context) (f : Failure) :
    ShellM FileStore Unit := do
  modify fun m => m.writeLine .error f.message
  if f = .suspended then suspend invoke context

lemma applyPolicy_of_ending {m : Machine} {f : Failure} (h : m.ending = some f)
    (invoke : Invoke) (context : Option Context) (failure : Option Failure) :
    applyPolicy invoke context failure m =
      (conclude invoke context f m).map fun p => (.finish f, p.2) := by
  obtain ⟨s, hs, hending⟩ := Option.bind_eq_some_iff.1 h
  unfold applyPolicy conclude
  rw [ShellM.get_bind, hs]
  unfold Scope.ending at hending
  split at hending
  · cases hending
  · rename_i hmark
    cases hpolicy : s.policy with
    | proceed =>
      simp only [hpolicy] at hending
      cases hending
    | stop =>
      simp only [hpolicy] at hending
      cases hending
      simp only [hmark, hpolicy]
      rfl
    | suspend =>
      simp only [hpolicy] at hending
      split at hending
      · rename_i htimeout
        cases hending
        have htimed : s.isTimed = false := by
          rw [Scope.isTimed, htimeout]
          rfl
        simp only [hmark, hpolicy, htimed]
        exact ShellM.bind_pure_of_const (suspend invoke context) _ _
      · cases hending

lemma applyPolicy_of_none {m : Machine} (h : m.ending = none) (invoke : Invoke)
    (context : Option Context) (failure : Option Failure) :
    applyPolicy invoke context failure m =
      if m.waits && m.announce.isCancelled context then some (.finish .cancelled, m.announce)
      else some (.readOn (carry m failure), m.announce) := by
  unfold applyPolicy carry Machine.announce Machine.waits
  rw [ShellM.get_bind]
  unfold Machine.ending at h
  cases hs : m.shell.scopes.head? with
  | none => rfl
  | some s =>
    rw [hs] at h
    cases hwaits : s.waits with
    | true =>
      obtain ⟨⟨⟨hinteractive, herrored⟩, hpolicy⟩, htimed⟩ := s.waits_iff.1 hwaits
      simp only [hinteractive, herrored, hpolicy, htimed, Option.any_some, hwaits, if_true,
        Bool.true_and, Bool.false_or, Bool.not_true, Bool.false_eq_true, if_false]
      rw [ShellM.modify_bind, ShellM.get_bind]
      split <;> rfl
    | false =>
      rcases Scope.passes_of_none h hwaits with hmark | hpolicy
      · simp only [hmark, Option.any_some, hwaits]
        rfl
      · simp only [hpolicy, Option.any_some, hwaits, ite_self]
        rfl

/-! ### Lines that end an invocation -/

/-- A line whose references have been replaced ends the invocation: it is neither blank nor a
comment, and it has nothing but separators or `exit` as its first word. -/
def DepartsExpanded (line : Bytes) : Prop :=
  line.trimStart ≠ [] ∧ isComment line.trimStart = false ∧
    ((∀ c ∈ line, c ∈ Line.separators) ∨
      ∃ l, Line.split line = .ok l ∧ l.words.head? = some "exit")

/-- A line ends the invocation that reads it: it is no comment, and it ends the invocation once
its references have been replaced by their values. -/
def Departs (m : Machine) (raw : Bytes) : Prop :=
  isComment raw.trimStart = false ∧
    ∃ line, Substitution.expandDefined
        ((m.shell.definitions.getD {}).lookup m.host.environment.find?) raw = .ok line ∧
      DepartsExpanded line

section Departure

variable (invoke : Invoke) (context : Option Context) (location : Location)

lemma handleSplit_leave_iff (line : Line) :
    ShellM.Yields (fun c => c = .leave ↔ line.words.head? = some "exit")
      (handleSplit invoke context line location) := by
  unfold handleSplit
  dsimp only
  split
  · rename_i hwords _
    refine ShellM.yields_bind fun _ => ShellM.yields_pure ?_
    simp [hwords]
  · split
    · rename_i hexit
      exact ShellM.yields_pure (iff_of_true rfl (by simpa using hexit))
    · rename_i hexit
      refine ShellM.yields_bind fun _ => ShellM.yields_pure ?_
      exact iff_of_false (by simp) (by simpa using hexit)

lemma handleShown_leave_iff (line : Bytes) :
    ShellM.Yields (fun c => c = .leave ↔ DepartsExpanded line)
      (handleShown invoke context line location) := by
  unfold handleShown
  dsimp only
  split
  · rename_i hskip
    refine ShellM.yields_pure (iff_of_false (by simp) fun hdeparts => ?_)
    rcases Bool.or_eq_true_iff.1 hskip with hblank | hcomment
    · exact hdeparts.1 (List.isEmpty_iff.1 hblank)
    · exact absurd hcomment (by simp [hdeparts.2.1])
  · rename_i hskip
    obtain ⟨hblank, hcomment⟩ := Bool.or_eq_false_iff.1 (Bool.not_eq_true _ ▸ hskip)
    have hdeparts : DepartsExpanded line ↔ Line.split line = .error .empty ∨
        ∃ l, Line.split line = .ok l ∧ l.words.head? = some "exit" := by
      unfold DepartsExpanded
      rw [Line.split_eq_empty_iff]
      simp [List.isEmpty_eq_false_iff.1 hblank, hcomment]
    rw [hdeparts]
    split
    · rename_i hsplit
      exact ShellM.yields_pure (by simp [hsplit])
    · rename_i f hne hsplit
      have hf : f ≠ .empty := fun heq => hne heq
      exact ShellM.yields_bind fun _ => ShellM.yields_pure (by simp [hsplit, hf])
    · rename_i l hsplit
      simpa [hsplit] using handleSplit_leave_iff invoke context location l

lemma handleExpanded_leave_iff (line : Bytes) (script : Bool) :
    ShellM.Yields (fun c => c = .leave ↔ DepartsExpanded line)
      (handleExpanded invoke context line location script) := by
  have hshown := handleShown_leave_iff invoke context location line
  unfold handleExpanded
  dsimp only
  split
  · exact ShellM.yields_bind fun _ => hshown
  · exact hshown

/-- A line that has been handled ends the invocation exactly if it is one of those. -/
lemma handle_leave_iff {invoke : Invoke} {context : Option Context} {location : Location}
    {raw : Bytes} {script : Bool} {m m' : Machine} {c : Continuation}
    (h : handle invoke context raw location script m = some (c, m')) :
    c = .leave ↔ Departs m raw := by
  have hnone : ∀ f : Machine → Machine, ShellM.Yields (fun c => c = Continuation.goOn)
      (modify f >>= fun _ => pure Continuation.goOn : ShellM FileStore Continuation) :=
    fun f => ShellM.yields_bind fun _ => ShellM.yields_pure rfl
  unfold handle at h
  dsimp only at h
  cases hcomment : isComment raw.trimStart with
  | true =>
    rw [hcomment, if_pos rfl] at h
    refine iff_of_false (fun hleave => ?_) fun hdeparts => by simp [Departs, hcomment] at hdeparts
    cases hshow : script && !isSilentComment raw.trimStart with
    | true =>
      rw [hshow, if_pos rfl] at h
      exact absurd ((hnone _ _ _ _ h).symm.trans hleave) (by simp)
    | false =>
      rw [hshow, if_neg (by simp)] at h
      exact absurd ((ShellM.pure_eq_some h).1.trans hleave) (by simp)
  | false =>
    rw [hcomment, if_neg (by simp), ShellM.get_bind] at h
    cases hline : Substitution.expandDefined
        ((m.shell.definitions.getD {}).lookup m.host.environment.find?) raw with
    | error f =>
      simp only [hline] at h
      refine iff_of_false (fun hleave => ?_) fun hdeparts => by simp [Departs, hline] at hdeparts
      exact absurd ((hnone _ _ _ _ h).symm.trans hleave) (by simp)
    | ok line =>
      simp only [hline] at h
      have hleave : c = .leave ↔ DepartsExpanded line :=
        handleExpanded_leave_iff invoke context location line script m c m' h
      simp [hleave, Departs, hcomment, hline]

end Departure

/-! ### Turns -/

/-- One line of an invocation: the machine before the policy looks at the latest line, the line
that is then read, the machine after reading it, and the machine after handling it. -/
structure Turn where
  start : Machine
  raw : Bytes
  read : Machine
  done : Machine

/-- The failure that an invocation carries after some turns. -/
def waited (failure : Option Failure) (ts : List Turn) : Option Failure :=
  if ts.any fun t => t.start.waits then some .suspended else failure

/-- The last of the lines ends the invocation. -/
def Left (ts : List Turn) : Prop := ∃ t ∈ ts.getLast?, Departs t.read t.raw

/-- The lines of the turns are what a reader delivers one after another. -/
inductive Delivers {ρ : Type} (read : ρ → Machine → Option Bytes × ρ × Machine) :
    ρ → List Turn → ρ → Prop
  | nil (r : ρ) : Delivers read r [] r
  | cons {r r₁ r' : ρ} {t : Turn} {ts : List Turn}
      (hread : read r t.start.announce = (some t.raw, r₁, t.read)) (hrest : Delivers read r₁ ts r') :
      Delivers read r (t :: ts) r'

/-- A reader that has its lines in a list. -/
def readList (lines : List Bytes) (m : Machine) : Option Bytes × List Bytes × Machine :=
  (lines.head?, lines.tail, m)

/-- What the reader of a list delivers is the beginning of the list. -/
lemma eq_append_of_delivers_readList {lines rest : List Bytes} {ts : List Turn}
    (h : Delivers readList lines ts rest) : lines = ts.map Turn.raw ++ rest := by
  induction h with
  | nil => rfl
  | @cons lines lines₁ rest t ts hread _ ih =>
    unfold readList at hread
    simp only [Prod.mk.injEq] at hread
    obtain ⟨hhead, htail, -⟩ := hread
    rw [List.eq_cons_of_mem_head? hhead, htail, ih]
    rfl

/-- The number of the next line. -/
def Location.next (l : Location) : Location := { l with line := l.line + 1 }

/-- The turns lead from one machine to another.  Each line is handled on what its reading left,
no line is taken where the policy ends the invocation, and none after a line that ends it. -/
inductive Handled (invoke : Invoke) (context : Option Context) (script : Bool) :
    Location → Machine → List Turn → Machine → Prop
  | nil (l : Location) (m : Machine) : Handled invoke context script l m [] m
  | cons {l : Location} {t : Turn} {ts : List Turn} {c : Continuation} {m' : Machine}
      (hgoes : t.start.ending = none)
      (hhandle : handle invoke context t.raw (Location.next l) script t.read = some (c, t.done))
      (hlast : Departs t.read t.raw → ts = [])
      (hrest : Handled invoke context script (Location.next l) t.done ts m') :
      Handled invoke context script l t.start (t :: ts) m'

lemma Handled.eq_of_nil {invoke : Invoke} {context : Option Context} {script : Bool}
    {l : Location} {m m' : Machine} (h : Handled invoke context script l m [] m') : m' = m := by
  cases h
  rfl

/-- After the turns the invocation is ended by its last line or by its policy. -/
inductive Stops (invoke : Invoke) (context : Option Context) (failure : Option Failure)
    (ts : List Turn) (m : Machine) : Option Failure → Machine → Prop
  | line (hleft : Left ts) : Stops invoke context failure ts m (waited failure ts) m
  | policy {f : Failure} {m' : Machine} (hstays : ¬ Left ts) (hending : m.ending = some f)
      (hconclude : conclude invoke context f m = some ((), m')) :
      Stops invoke context failure ts m (some f) m'

/-- After the turns there is nothing to read any more. -/
inductive Exhausted {ρ : Type} (read : ρ → Machine → Option Bytes × ρ × Machine)
    (failure : Option Failure) (ts : List Turn) (r : ρ) (m : Machine) :
    Option Failure → ρ → Machine → Prop
  | intro {r' : ρ} {m' : Machine} (hstays : ¬ Left ts) (hgoes : m.ending = none)
      (hread : read r m.announce = (none, r', m')) :
      Exhausted read failure ts r m (carry m (waited failure ts)) r' m'

/-! ### One turn more -/

lemma waited_cons (failure : Option Failure) (t : Turn) (ts : List Turn) :
    waited failure (t :: ts) = waited (carry t.start failure) ts := by
  unfold waited carry
  rw [List.any_cons]
  cases t.start.waits with
  | true => simp
  | false => rfl

lemma left_singleton (t : Turn) : Left [t] ↔ Departs t.read t.raw := by
  simp [Left]

lemma left_cons_iff {t : Turn} (h : ¬ Departs t.read t.raw) (ts : List Turn) :
    Left (t :: ts) ↔ Left ts := by
  cases ts with
  | nil => simp [Left, h]
  | cons u us => simp [Left, List.getLast?_cons_cons]

section Cons

variable {invoke : Invoke} {context : Option Context} {failure failure' : Option Failure}
  {t : Turn} {ts : List Turn} {m m' : Machine}

lemma stops_cons_iff (h : ¬ Departs t.read t.raw) :
    Stops invoke context failure (t :: ts) m failure' m' ↔
      Stops invoke context (carry t.start failure) ts m failure' m' := by
  constructor
  · intro hstops
    cases hstops with
    | line hleft =>
      rw [waited_cons]
      exact .line ((left_cons_iff h ts).1 hleft)
    | policy hstays hending hconclude =>
      exact .policy (mt (left_cons_iff h ts).2 hstays) hending hconclude
  · intro hstops
    cases hstops with
    | line hleft =>
      rw [← waited_cons]
      exact .line ((left_cons_iff h ts).2 hleft)
    | policy hstays hending hconclude =>
      exact .policy (mt (left_cons_iff h ts).1 hstays) hending hconclude

lemma exhausted_cons_iff {ρ : Type} {read : ρ → Machine → Option Bytes × ρ × Machine} {r r' : ρ}
    (h : ¬ Departs t.read t.raw) :
    Exhausted read failure (t :: ts) r m failure' r' m' ↔
      Exhausted read (carry t.start failure) ts r m failure' r' m' := by
  constructor
  · rintro ⟨hstays, hgoes, hread⟩
    rw [waited_cons]
    exact .intro (mt (left_cons_iff h ts).2 hstays) hgoes hread
  · rintro ⟨hstays, hgoes, hread⟩
    rw [← waited_cons]
    exact .intro (mt (left_cons_iff h ts).1 hstays) hgoes hread

end Cons

/-! ### The loop, one line at a time -/

section Step

variable {ρ : Type} {read : ρ → Machine → Option Bytes × ρ × Machine} {invoke : Invoke}
  {context : Option Context} {script : Bool} {m : Machine}

lemma loop_of_ending {f : Failure} (hm : m.isCancelled context = false) (h : m.ending = some f)
    (fuel : Nat) (p : Progress ρ) :
    loop read invoke context script (fuel + 1) p m =
      (conclude invoke context f m).map fun q => ((some f, p.reader), q.2) := by
  unfold loop
  rw [ShellM.get_bind, hm, if_neg (by simp), ShellM.bind_apply, applyPolicy_of_ending h]
  cases conclude invoke context f m with
  | none => rfl
  | some q => rfl

/-- The loop after its policy has let it read the next line. -/
def takeLine (read : ρ → Machine → Option Bytes × ρ × Machine) (invoke : Invoke)
    (context : Option Context) (script : Bool) (fuel : Nat) (p : Progress ρ) (m : Machine) :
    Option ((Option Failure × ρ) × Machine) :=
  match read p.reader m.announce with
  | (none, r, n) => some ((carry m p.failure, r), n)
  | (some raw, r, n) =>
    (handle invoke context raw (Location.next p.location) script n).bind fun q =>
      match q.1 with
      | .leave => some ((carry m p.failure, r), q.2)
      | .goOn =>
        loop read invoke context script fuel ⟨r, carry m p.failure, Location.next p.location⟩ q.2

lemma loop_of_none (hm : m.isCancelled context = false) (h : m.ending = none)
    (fuel : Nat) (p : Progress ρ) :
    loop read invoke context script (fuel + 1) p m =
      if m.waits && m.announce.isCancelled context then
        some ((some .cancelled, p.reader), m.announce)
      else takeLine read invoke context script fuel p m := by
  rw [loop, ShellM.get_bind, hm, if_neg (by simp), ShellM.bind_apply, applyPolicy_of_none h]
  split
  · rfl
  · rw [Option.bind_some]
    dsimp only
    rw [ShellM.modifyGet_bind]
    unfold takeLine
    obtain ⟨line, r, n⟩ := read p.reader m.announce
    cases line with
    | none => rfl
    | some raw =>
      dsimp only
      rw [ShellM.bind_apply]
      refine congrArg (Option.bind _) (funext fun q => ?_)
      cases q.1 with
      | leave => rfl
      | goOn => rfl

/-- Where nothing is cancelled even after the announcement, the next line is read. -/
lemma loop_of_announce (hannounce : m.announce.isCancelled context = false)
    (h : m.ending = none) (fuel : Nat) (p : Progress ρ) :
    loop read invoke context script (fuel + 1) p m =
      takeLine read invoke context script fuel p m := by
  have hm := m.exchange_announce.keeps.isCancelled_eq_false hannounce
  rw [loop_of_none hm h, hannounce, Bool.and_false, if_neg (by simp)]

end Step

/-! ### The loop as a whole -/

section Run

variable {ρ : Type} {read : ρ → Machine → Option Bytes × ρ × Machine} {invoke : Invoke}
  {context : Option Context} {script : Bool} {m m' : Machine} {failure : Option Failure} {r' : ρ}

lemma maintains_conclude (hinvoke : Restoring invoke) (context : Option Context) (f : Failure) :
    ShellM.Maintains Keeps (conclude invoke context f) := by
  unfold conclude
  refine ShellM.maintains_bind (ShellM.maintains_modify fun m => ?_) fun _ => ?_
  · exact Keeps.answers.writeLine _ _ m
  · split
    · exact (rounds_keeps hinvoke).suspend context
    · exact ShellM.maintains_pure ()

/-- A turn stays inside the frame. -/
lemma keeps_turn (hread : ∀ r m, Keeps m (read r m).2.2) (hinvoke : Restoring invoke)
    {t : Turn} {r r₁ : ρ} {location : Location} {c : Continuation}
    (hsome : read r t.start.announce = (some t.raw, r₁, t.read))
    (hhandle : handle invoke context t.raw location script t.read = some (c, t.done)) :
    Keeps t.start.announce t.done := by
  have hreads := hread r t.start.announce
  rw [hsome] at hreads
  exact hreads.trans ((rounds_keeps hinvoke).handle context _ _ _ _ _ _ hhandle)

/-- A loop that returns, and is not cancelled, has gone through turns that end it. -/
lemma exists_turns_of_loop (hread : ∀ r m, Keeps m (read r m).2.2) (hinvoke : Restoring invoke)
    {fuel : Nat} {p : Progress ρ}
    (h : loop read invoke context script fuel p m = some ((failure, r'), m'))
    (hm' : m'.isCancelled context = false) :
    ∃ ts r₁ m₁, Delivers read p.reader ts r₁ ∧
      Handled invoke context script p.location m ts m₁ ∧
        (r₁ = r' ∧ Stops invoke context p.failure ts m₁ failure m' ∨
          Exhausted read p.failure ts r₁ m₁ failure r' m') := by
  induction fuel generalizing p m with
  | zero => cases h
  | succ fuel ih =>
    -- contexts stay cancelled, so that the machine at the end tells about this one
    have hm : m.isCancelled context = false :=
      (maintains_loop hinvoke hread context script _ p m _ _ h).isCancelled_eq_false hm'
    cases hending : m.ending with
    | some f =>
      rw [loop_of_ending hm hending] at h
      obtain ⟨⟨_, n⟩, hconclude, heq⟩ := Option.map_eq_some_iff.1 h
      simp only [Prod.mk.injEq] at heq
      obtain ⟨⟨rfl, rfl⟩, rfl⟩ := heq
      exact ⟨[], _, m, .nil _, .nil _ m, .inl ⟨rfl, .policy (by simp [Left]) hending hconclude⟩⟩
    | none =>
      rw [loop_of_none hm hending] at h
      split at h
      · -- cancelled while waiting, which the machine at the end would show
        rename_i hcancelled
        simp only [Option.some.injEq, Prod.mk.injEq] at h
        obtain ⟨-, rfl⟩ := h
        exact absurd hm' (by simp [(Bool.and_eq_true_iff.1 hcancelled).2])
      · unfold takeLine at h
        split at h
        · -- the source is at its end
          rename_i r n hnone
          simp only [Option.some.injEq, Prod.mk.injEq] at h
          obtain ⟨⟨rfl, rfl⟩, rfl⟩ := h
          exact ⟨[], _, m, .nil _, .nil _ m, .inr (.intro (by simp [Left]) hending hnone)⟩
        · rename_i raw r n hsome
          obtain ⟨⟨c, n'⟩, hhandle, h⟩ := Option.bind_eq_some_iff.1 h
          have hleave := handle_leave_iff hhandle
          cases c with
          | leave =>
            -- the line ends the invocation
            simp only [Option.some.injEq, Prod.mk.injEq] at h
            obtain ⟨⟨rfl, rfl⟩, rfl⟩ := h
            refine ⟨[⟨m, raw, n, n'⟩], r, n', .cons hsome (.nil r),
              .cons (t := ⟨m, raw, n, n'⟩) hending hhandle (fun _ => rfl) (.nil _ n'), .inl ⟨rfl, ?_⟩⟩
            have hleft : Left [⟨m, raw, n, n'⟩] := (left_singleton _).2 (hleave.1 rfl)
            have hstops : Stops invoke context p.failure _ n' _ n' := .line hleft
            rw [waited_cons] at hstops
            exact hstops
          | goOn =>
            obtain ⟨ts, r₁, m₁, hdelivers, hhandled, hend⟩ := ih h
            have hstays : ¬ Departs n raw := fun hdeparts => by simpa using hleave.2 hdeparts
            refine ⟨⟨m, raw, n, n'⟩ :: ts, r₁, m₁, .cons hsome hdelivers,
              .cons (t := ⟨m, raw, n, n'⟩) hending hhandle (fun hd => absurd hd hstays) hhandled, ?_⟩
            rw [stops_cons_iff hstays, exhausted_cons_iff hstays]
            exact hend

/-- Turns that end the loop are gone through by it, if it is not cancelled. -/
lemma loop_of_turns (hread : ∀ r m, Keeps m (read r m).2.2) (hinvoke : Restoring invoke)
    {location : Location} {ts : List Turn} {m₁ : Machine}
    (hhandled : Handled invoke context script location m ts m₁) {r r₁ : ρ}
    (hdelivers : Delivers read r ts r₁) {failure₀ : Option Failure}
    (hend : r₁ = r' ∧ Stops invoke context failure₀ ts m₁ failure m' ∨
      Exhausted read failure₀ ts r₁ m₁ failure r' m')
    (hm' : m'.isCancelled context = false) :
    ∃ fuel, loop read invoke context script fuel ⟨r, failure₀, location⟩ m =
      some ((failure, r'), m') := by
  induction hhandled generalizing r failure₀ with
  | nil location m =>
    cases hdelivers
    rcases hend with ⟨rfl, hstops⟩ | hexhausted
    · cases hstops with
      | line hleft => simp [Left] at hleft
      | policy _ hending hconclude =>
        have hkeeps := maintains_conclude hinvoke context _ _ _ _ hconclude
        refine ⟨1, ?_⟩
        rw [loop_of_ending (hkeeps.isCancelled_eq_false hm') hending, hconclude]
        rfl
    · obtain ⟨-, hgoes, hnone⟩ := hexhausted
      have hkeeps := hread r₁ m.announce
      rw [hnone] at hkeeps
      refine ⟨1, ?_⟩
      rw [loop_of_announce (hkeeps.isCancelled_eq_false hm') hgoes, takeLine, hnone]
      simp [waited]
  | @cons location t ts c m₁ hgoes hhandle hlast hrest ih =>
    cases hdelivers with
    | @cons _ r₂ _ _ _ hsome hdelivers =>
      have hkeeps := keeps_turn hread hinvoke hsome hhandle
      have hleave := handle_leave_iff hhandle
      by_cases hdeparts : Departs t.read t.raw
      · -- the line ends the invocation, so that it is the last
        obtain rfl := hlast hdeparts
        obtain rfl := hleave.2 hdeparts
        have hleft := (left_singleton t).2 hdeparts
        obtain rfl := hrest.eq_of_nil
        cases hdelivers
        rcases hend with ⟨rfl, hstops⟩ | hexhausted
        · cases hstops with
          | policy hstays _ _ => exact absurd hleft hstays
          | line _ =>
            refine ⟨1, ?_⟩
            rw [loop_of_announce (hkeeps.isCancelled_eq_false hm') hgoes, takeLine, hsome]
            show (handle invoke context t.raw (Location.next location) script t.read).bind _ = _
            rw [hhandle, waited_cons]
            rfl
        · obtain ⟨hstays, -, -⟩ := hexhausted
          exact absurd hleft hstays
      · -- the other turns are gone through by the rest of the loop
        have hgoOn : c = .goOn := by
          cases c with
          | leave => exact absurd (hleave.1 rfl) hdeparts
          | goOn => rfl
        subst hgoOn
        rw [stops_cons_iff hdeparts, exhausted_cons_iff hdeparts] at hend
        obtain ⟨fuel, hloop⟩ := ih hdelivers hend
        have hrun := hkeeps.trans (maintains_loop hinvoke hread _ _ _ _ _ _ _ hloop)
        refine ⟨fuel + 1, ?_⟩
        rw [loop_of_announce (hrun.isCancelled_eq_false hm') hgoes, takeLine, hsome]
        show (handle invoke context t.raw (Location.next location) script t.read).bind _ = _
        rw [hhandle]
        exact hloop

/-- The policy does nothing about an interactive invocation, in whatever turn. -/
lemma interactive_of_turns (hread : ∀ r m, Keeps m (read r m).2.2) (hinvoke : Restoring invoke)
    {location : Location} {ts : List Turn} {m₁ : Machine}
    (hhandled : Handled invoke context script location m ts m₁) {r r₁ : ρ}
    (hdelivers : Delivers read r ts r₁) (hm : m.isInteractive = true) :
    m₁.isInteractive = true ∧ waited none ts = none := by
  induction hhandled generalizing r with
  | nil => exact ⟨hm, rfl⟩
  | @cons location t ts c m₁ hgoes hhandle hlast hrest ih =>
    cases hdelivers with
    | @cons _ r₂ _ _ _ hsome hdelivers =>
      have hkeeps := t.start.exchange_announce.keeps.trans
        (keeps_turn hread hinvoke hsome hhandle)
      have hdone : t.done.isInteractive = true := by
        unfold Machine.isInteractive at hm ⊢
        rw [hkeeps.interactive]
        exact hm
      obtain ⟨hm₁, hwaited⟩ := ih hdelivers hdone
      refine ⟨hm₁, ?_⟩
      rw [waited_cons, carry, Machine.waits_of_interactive hm]
      exact hwaited

end Run

/-- **The lines of an invocation.**  A loop that is never cancelled returns exactly if there are
turns, each with the next line that the reader delivers and each handled on what the one before
it left, that end the loop: the last of them has a line that ends it, and only the last has; or
the policy ends the loop after the last of them, and not before one of them; or there is nothing
to read after them.  The failure is the one of the policy if that ends the loop, and otherwise
says whether the loop has waited before it read.  Readers that deliver the same lines up to
there lead to the same failure and the same machine, whatever they have after them.  An
interactive loop is not ended by its policy and has no failure. -/
theorem loop_handles_lines {ρ : Type} {read : ρ → Machine → Option Bytes × ρ × Machine}
    (hread : ∀ r m, Keeps m (read r m).2.2) (depth : Nat) {context : Option Context}
    (script : Bool) (location : Location) (r r' : ρ) (m : Machine) {m' : Machine}
    (failure : Option Failure) (hm' : m'.isCancelled context = false) :
    ((∃ fuel, loop read (invoke depth) context script fuel ⟨r, none, location⟩ m =
        some ((failure, r'), m')) ↔
      ∃ ts r₁ m₁, Delivers read r ts r₁ ∧
        Handled (invoke depth) context script location m ts m₁ ∧
          (r₁ = r' ∧ Stops (invoke depth) context none ts m₁ failure m' ∨
            Exhausted read none ts r₁ m₁ failure r' m')) ∧
    (∀ ts m₁, Handled (invoke depth) context script location m ts m₁ →
      Stops (invoke depth) context none ts m₁ failure m' →
        ∀ {σ : Type} (read' : σ → Machine → Option Bytes × σ × Machine),
          (∀ s n, Keeps n (read' s n).2.2) → ∀ s s', Delivers read' s ts s' →
            ∃ fuel, loop read' (invoke depth) context script fuel ⟨s, none, location⟩ m =
              some ((failure, s'), m')) ∧
    (m.isInteractive = true →
      (∀ ts r₁ m₁, Delivers read r ts r₁ →
        Handled (invoke depth) context script location m ts m₁ → m₁.ending = none) ∧
      ((∃ fuel, loop read (invoke depth) context script fuel ⟨r, none, location⟩ m =
        some ((failure, r'), m')) → failure = none)) := by
  have hinvoke := restoring_invoke depth
  refine ⟨⟨?_, ?_⟩, ?_, fun hinteractive => ⟨?_, ?_⟩⟩
  · rintro ⟨fuel, hloop⟩
    exact exists_turns_of_loop hread hinvoke hloop hm'
  · rintro ⟨ts, r₁, m₁, hdelivers, hhandled, hend⟩
    exact loop_of_turns hread hinvoke hhandled hdelivers hend hm'
  · intro ts m₁ hhandled hstops σ read' hread' s s' hdelivers
    exact loop_of_turns hread' hinvoke hhandled hdelivers (.inl ⟨rfl, hstops⟩) hm'
  · intro ts r₁ m₁ hdelivers hhandled
    obtain ⟨hm₁, -⟩ := interactive_of_turns hread hinvoke hhandled hdelivers hinteractive
    exact Machine.ending_of_interactive hm₁
  · rintro ⟨fuel, hloop⟩
    obtain ⟨ts, r₁, m₁, hdelivers, hhandled, hend⟩ := exists_turns_of_loop hread hinvoke hloop hm'
    obtain ⟨hm₁, hwaited⟩ := interactive_of_turns hread hinvoke hhandled hdelivers hinteractive
    rcases hend with ⟨-, hstops⟩ | hexhausted
    · cases hstops with
      | line hleft => exact hwaited
      | policy _ hending _ => simp [Machine.ending_of_interactive hm₁] at hending
    · obtain ⟨-, -, -⟩ := hexhausted
      rw [carry, Machine.waits_of_interactive hm₁]
      exact hwaited

/-- A script that stops at its second line, which fails, and does not read the third. -/
theorem loop_handles_lines_until_failure :
    let m := enter none {} [] { host := { table := CommandTable.control } }
    let lines : List Bytes := ["on error break", "nosuch"]
    let later : List Bytes := ["on error continue"]
    ∃ m' ts m₁, ts.map Turn.raw = lines ∧ Handled (invoke 2) none true {} m ts m₁ ∧
      Stops (invoke 2) none none ts m₁ (some .stopped) m' ∧
      ∃ fuel, loop readList (invoke 2) none true fuel ⟨lines ++ later, none, {}⟩ m =
        some ((some .stopped, later), m') := by
  intro m lines later
  have hruns : (loop readList (invoke 2) none true 3 ⟨lines ++ later, none, {}⟩ m).any
      (fun q => q.1 == (some .stopped, later)) = true := by decide +kernel
  obtain ⟨⟨q, m'⟩, hloop, hq⟩ := (Option.any_eq_true _ _).1 hruns
  obtain rfl := eq_of_beq hq
  have hread : ∀ lines n, Keeps n (readList lines n).2.2 := fun _ n => .refl n
  have hm' : m'.isCancelled none = false := rfl
  obtain ⟨ts, r₁, m₁, hdelivers, hhandled, hend⟩ :=
    (loop_handles_lines hread 2 true {} (lines ++ later) later m _ hm').1.1 ⟨3, hloop⟩
  rcases hend with ⟨rfl, hstops⟩ | hexhausted
  · have hlines := eq_append_of_delivers_readList hdelivers
    exact ⟨m', ts, m₁, (List.append_cancel_right hlines).symm, hhandled, hstops, 3, hloop⟩
  · -- there is a line left to read
    generalize some Failure.stopped = failure at hexhausted
    obtain ⟨-, -, hnone⟩ := hexhausted
    unfold readList at hnone
    simp only [Prod.mk.injEq, List.head?_eq_none_iff] at hnone
    obtain ⟨rfl, hlater, -⟩ := hnone
    exact absurd hlater (List.cons_ne_nil _ _).symm

/-- A line that has nothing but separators does not end a script if it is blank: the line after
it is read and fails. -/
theorem blank_line_goes_on :
    let m := enter none {} [] { host := { table := CommandTable.control } }
    (∀ c ∈ ("  " : Bytes), c ∈ Line.separators) ∧
      Substitution.expandDefined
        ((m.shell.definitions.getD {}).lookup m.host.environment.find?) "  " = .ok "  " ∧
      (loop readList (invoke 1) none true 3 ⟨["  ", "nosuch"], none, {}⟩ m).any
        (fun q => q.1.2.isEmpty && q.2.isErrored) = true := by
  decide +kernel

end Interpreter

end ConsoleShell
