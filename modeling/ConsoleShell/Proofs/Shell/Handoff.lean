/-
Suspending and resuming a shell.

An invocation announces a new channel at the gate of its shell and waits on it.  It goes on when
the channel is closed.  If its context is cancelled, it stops waiting and takes the announcement
back in a later step.  Others resume the shell, or ask whether it is suspended, whenever they
like: also in between those two steps, when the channel may be closed although the invocation
goes on for another reason.

The steps are the ones that `Interpreter.suspend`, `Machine.resume` and the queries of commands
take under the lock of a shell.  A run is any sequence of them, with anything else that the
process does in between.  One invariant says what every step preserves; it ties the gate to the
latest suspension of the run, and the statement about runs is read off it.
-/
import ConsoleShell.Shell.Machine
import Mathlib

namespace ConsoleShell

/-! ### Gates -/

namespace Gate

lemma made_withdraw (g : Gate) (c : Nat) : (g.withdraw c).made = g.made := by
  rw [withdraw]
  split_ifs <;> rfl

lemma closed_withdraw (g : Gate) (c : Nat) : (g.withdraw c).closed = g.closed := by
  rw [withdraw]
  split_ifs <;> rfl

end Gate

namespace Host

@[simp] lemma gate_setGate (h : Host) (id : Nat) (g : Gate) : (h.setGate id g).gate id = g := by
  simp [gate, setGate]

lemma mem_suspended_iff {h : Host} {id : Nat} :
    id ∈ h.suspended ↔ (h.gate id).isHalted = true := by
  rw [suspended, List.mem_filter, and_iff_right_iff_imp]
  intro hhalted
  -- Only a gate that is listed is halted.
  cases hfind : h.gates.find? fun g => g.1 == id with
  | none =>
    rw [gate, hfind] at hhalted
    cases hhalted
  | some g =>
    rw [List.mem_map]
    exact ⟨g, List.mem_of_find?_eq_some hfind, by simpa using List.find?_some hfind⟩

end Host

namespace Machine

lemma answer_isSuspended (m : Machine) :
    m.answer .isSuspended = ((m.host.gate m.shell.id).isHalted, m) := by
  have hcontains : m.host.suspended.contains m.shell.id =
      (m.host.gate m.shell.id).isHalted := by
    rw [Bool.eq_iff_iff, List.contains_iff_mem, Host.mem_suspended_iff]
  exact Prod.ext hcontains rfl

lemma release_of_none {m : Machine} {id : Nat} (h : (m.host.gate id).halted = none) :
    m.release id = (false, m) := by
  rw [release, Gate.resume?, h]
  rfl

lemma release_of_some {m : Machine} {id c : Nat} (h : (m.host.gate id).halted = some c) :
    m.release id = (true, { m with
      host := m.host.setGate id
        { m.host.gate id with halted := none, closed := c :: (m.host.gate id).closed } }) := by
  rw [release, Gate.resume?, h]
  rfl

lemma isCancelled_congr {m n : Machine} (h : n.host.cancelled = m.host.cancelled)
    (k : Option Context) : n.isCancelled k = m.isCancelled k := by
  cases k with
  | none => rfl
  | some k => rw [isCancelled, isCancelled, h]

lemma isCancelled_cancel {m : Machine} {k k' : Option Context}
    (h : (m.cancel k).isCancelled k' = true) : k' = k ∨ m.isCancelled k' = true := by
  cases k with
  | none => exact .inr h
  | some k =>
    cases k' with
    | none => cases h
    | some k' => simpa [cancel, isCancelled] using h

end Machine

namespace Handoff

/-! ### Steps -/

/-- What the invocation of a shell is doing. -/
inductive Phase where
  /-- It is not suspended. -/
  | running
  /-- It waits on a channel; the context is the one that it was started with. -/
  | waiting (channel : Nat) (context : Option Context)
  /-- It has stopped waiting, and has yet to take its announcement back. -/
  | leaving (channel : Nat) (context : Option Context)
  deriving DecidableEq, Repr

/-- The channel and the context of a suspension that is not over. -/
def Phase.suspension : Phase → Option (Nat × Option Context)
  | .running => none
  | .waiting c k => some (c, k)
  | .leaving c k => some (c, k)

/-- A shell in its process, with an invocation. -/
structure State where
  machine : Machine
  phase : Phase

/-- The gate of the shell. -/
def State.gate (s : State) : Gate := s.machine.host.gate s.machine.shell.id

/-- What happens in a step. -/
inductive Act where
  /-- The invocation suspends itself. -/
  | suspended (channel : Nat) (context : Option Context)
  /-- Someone resumes the shell and is told whether it was suspended. -/
  | resumed (effective : Bool)
  /-- Someone asks whether the shell is suspended. -/
  | asked (answer : Bool)
  | cancelled (context : Option Context)
  /-- The invocation goes on since its channel is closed. -/
  | woken (channel : Nat)
  /-- The invocation stops waiting since its context is cancelled. -/
  | gaveUp (channel : Nat)
  /-- The invocation takes its announcement back and goes on. -/
  | withdrawn (channel : Nat)
  /-- The process does something else. -/
  | other
  deriving DecidableEq, Repr

/-- The steps of an invocation and of those who resume, watch or cancel it. -/
inductive Step : State → Act → State → Prop
  | halt (m : Machine) (k : Option Context) :
    Step ⟨m, .running⟩ (.suspended m.halt.1 k) ⟨m.halt.2, .waiting m.halt.1 k⟩
  | release (m : Machine) (p : Phase) :
    Step ⟨m, p⟩ (.resumed (m.release m.shell.id).1) ⟨(m.release m.shell.id).2, p⟩
  | ask (m : Machine) (p : Phase) :
    Step ⟨m, p⟩ (.asked (m.answer .isSuspended).1) ⟨(m.answer .isSuspended).2, p⟩
  | cancel (m : Machine) (p : Phase) (k : Option Context) :
    Step ⟨m, p⟩ (.cancelled k) ⟨m.cancel k, p⟩
  | wake {m : Machine} {c : Nat} (k : Option Context)
    (h : c ∈ (m.host.gate m.shell.id).closed) : Step ⟨m, .waiting c k⟩ (.woken c) ⟨m, .running⟩
  | giveUp {m : Machine} (c : Nat) {k : Option Context} (h : m.isCancelled k = true) :
    Step ⟨m, .waiting c k⟩ (.gaveUp c) ⟨m, .leaving c k⟩
  | withdraw (m : Machine) (c : Nat) (k : Option Context) :
    Step ⟨m, .leaving c k⟩ (.withdrawn c) ⟨m.withdraw c, .running⟩
  | other {m n : Machine} (p : Phase) (hid : n.shell.id = m.shell.id)
    (hgate : n.host.gate n.shell.id = m.host.gate m.shell.id)
    (hcancelled : n.host.cancelled = m.host.cancelled) : Step ⟨m, p⟩ .other ⟨n, p⟩

/-- Steps that are taken one after the other. -/
inductive Run : State → List Act → State → Prop
  | nil (s : State) : Run s [] s
  | cons {s₁ s₂ s₃ : State} {a : Act} {as : List Act} :
    Step s₁ a s₂ → Run s₂ as s₃ → Run s₁ (a :: as) s₃

namespace Run

variable {s s' : State}

lemma cons_iff {a : Act} {as : List Act} :
    Run s (a :: as) s' ↔ ∃ s₁, Step s a s₁ ∧ Run s₁ as s' := by
  constructor
  · rintro (_ | ⟨hstep, hrest⟩)
    exact ⟨_, hstep, hrest⟩
  · rintro ⟨s₁, hstep, hrest⟩
    exact .cons hstep hrest

lemma append_iff {as bs : List Act} :
    Run s (as ++ bs) s' ↔ ∃ s₁, Run s as s₁ ∧ Run s₁ bs s' := by
  induction as generalizing s with
  | nil =>
    refine ⟨fun h => ⟨s, .nil s, h⟩, ?_⟩
    rintro ⟨s₁, ⟨⟩, h⟩
    exact h
  | cons a as ih =>
    simp only [List.cons_append, cons_iff, ih]
    constructor
    · rintro ⟨s₁, hstep, s₂, has, hbs⟩
      exact ⟨s₂, ⟨s₁, hstep, has⟩, hbs⟩
    · rintro ⟨s₂, ⟨s₁, hstep, has⟩, hbs⟩
      exact ⟨s₁, hstep, s₂, has, hbs⟩

end Run

/-- Resuming a shell that is not suspended changes nothing. -/
lemma Step.eq_of_resumed_false {s s' : State} (h : Step s (.resumed false) s') : s' = s := by
  generalize ha : Act.resumed false = a at h
  cases h with
  | release m p =>
    cases hhalted : (m.host.gate m.shell.id).halted with
    | none => rw [Machine.release_of_none hhalted]
    | some c => simp [Machine.release_of_some hhalted] at ha
  | _ => cases ha

/-! ### What a run says about suspensions -/

namespace Act

/-- The channel of a suspension that begins. -/
def channel? : Act → Option Nat
  | suspended c _ => some c
  | _ => none

/-- A suspension is resumed, or it is over. -/
def ends : Act → Bool
  | resumed effective => effective
  | woken _ | withdrawn _ => true
  | _ => false

end Act

/-- The channels of all suspensions, in order. -/
def channels (as : List Act) : List Nat := as.filterMap Act.channel?

/-- The channel and the context of the latest suspension, and what has happened since it
began. -/
def Latest (as : List Act) (c : Nat) (k : Option Context) (since : List Act) : Prop :=
  (∃ before, as = before ++ .suspended c k :: since) ∧ ∀ a ∈ since, a.channel? = none

/-- The latest suspension has been announced, and it has neither been resumed nor ended. -/
def Pending (as : List Act) (c : Nat) : Prop :=
  ∃ k since, Latest as c k since ∧ ∀ a ∈ since, a.ends = false

/-- A context was cancelled from the start or has been cancelled. -/
def Cancelled (m : Machine) (as : List Act) (k : Option Context) : Prop :=
  m.isCancelled k = true ∨ .cancelled k ∈ as

variable {m : Machine} {as : List Act} {a : Act} {c : Nat} {k : Option Context}

lemma channels_concat : channels (as ++ [a]) = channels as ++ a.channel?.toList := by
  rw [channels, channels, List.filterMap_append]
  cases h : a.channel? <;> simp [h]

lemma latest_suspended : Latest (as ++ [.suspended c k]) c k [] :=
  ⟨⟨as, rfl⟩, by simp⟩

lemma Latest.concat {since : List Act} (h : Latest as c k since) (ha : a.channel? = none) :
    Latest (as ++ [a]) c k (since ++ [a]) := by
  obtain ⟨⟨before, rfl⟩, hsince⟩ := h
  refine ⟨⟨before, by simp⟩, fun x hx => ?_⟩
  rcases List.mem_append.1 hx with hx | hx
  · exact hsince x hx
  · rwa [List.mem_singleton.1 hx]

lemma Latest.mem_channels {since : List Act} (h : Latest as c k since) : c ∈ channels as := by
  obtain ⟨⟨before, rfl⟩, -⟩ := h
  exact List.mem_filterMap.2 ⟨.suspended c k, by simp, rfl⟩

/-- Only the latest act tells whether a suspension goes on. -/
lemma pending_concat : Pending (as ++ [a]) c ↔
    a.channel? = some c ∨ (a.channel? = none ∧ a.ends = false ∧ Pending as c) := by
  constructor
  · rintro ⟨k, since, ⟨⟨before, heq⟩, hlatest⟩, hends⟩
    rcases since.eq_nil_or_concat' with rfl | ⟨since, x, rfl⟩
    · obtain ⟨-, rfl⟩ := List.concat_inj.1 (by simpa using heq)
      exact .inl rfl
    · rw [← List.cons_append, ← List.append_assoc] at heq
      obtain ⟨rfl, hx⟩ := List.append_inj' heq rfl
      obtain rfl := List.singleton_inj.1 hx
      refine .inr ⟨hlatest a (by simp), hends a (by simp), k, since, ⟨⟨before, rfl⟩, ?_⟩, ?_⟩
      · exact fun y hy => hlatest y (by simp [hy])
      · exact fun y hy => hends y (by simp [hy])
  · rintro (ha | ⟨ha, hend, k, since, hlatest, hends⟩)
    · cases a with
      | suspended c' k =>
        obtain rfl := Option.some.inj ha
        exact ⟨k, [], latest_suspended, by simp⟩
      | _ => cases ha
    · refine ⟨k, since ++ [a], hlatest.concat ha, fun x hx => ?_⟩
      rcases List.mem_append.1 hx with hx | hx
      · exact hends x hx
      · rwa [List.mem_singleton.1 hx]

lemma Cancelled.concat (h : Cancelled m as k) (a : Act) : Cancelled m (as ++ [a]) k :=
  h.imp_right (List.mem_append_left [a])

/-! ### What every step preserves -/

/-- What a run of acts from a machine leads to. -/
structure Inv (m : Machine) (as : List Act) (s : State) : Prop where
  made : ∀ c ∈ channels as, c < s.gate.made
  channels_nodup : (channels as).Nodup
  closed_made : ∀ c ∈ s.gate.closed, c < s.gate.made
  closed_nodup : s.gate.closed.Nodup
  /-- An announced channel is open, -/
  not_closed : ∀ c, s.gate.halted = some c → c ∉ s.gate.closed
  /-- and it is the one of the pending suspension, -/
  pending : ∀ c, s.gate.halted = some c ↔ Pending as c
  /-- which the invocation is in. -/
  suspension : ∀ c, s.gate.halted = some c → ∃ k, s.phase.suspension = some (c, k)
  /-- The channel of a suspension is closed only by resuming this very suspension. -/
  latest : ∀ c k, s.phase.suspension = some (c, k) →
    ∃ since, Latest as c k since ∧ (c ∈ s.gate.closed → .resumed true ∈ since)
  cancelled : ∀ k, s.machine.isCancelled k = true → Cancelled m as k
  leaving : ∀ c k, s.phase = .leaving c k → Cancelled m as k

namespace Inv

variable {s s' : State}

lemma start (h : m.host.gate m.shell.id = {}) : Inv m [] ⟨m, .running⟩ where
  made := by simp [channels]
  channels_nodup := List.nodup_nil
  closed_made := by simp [State.gate, h]
  closed_nodup := by simp [State.gate, h]
  not_closed := by simp [State.gate, h]
  pending c := by simp [State.gate, h, Pending, Latest]
  suspension := by simp [State.gate, h]
  latest := by simp [Phase.suspension]
  cancelled k hk := .inl hk
  leaving := by simp

/-- An act that begins no suspension and ends none leaves the gate and the suspension alone. -/
lemma idle (h : Inv m as s) (ha : a.channel? = none) (hend : a.ends = false)
    (hgate : s'.gate = s.gate) (hphase : s'.phase.suspension = s.phase.suspension)
    (hcancelled : ∀ k, s'.machine.isCancelled k = true → Cancelled m (as ++ [a]) k)
    (hleaving : ∀ c k, s'.phase = .leaving c k → Cancelled m (as ++ [a]) k) :
    Inv m (as ++ [a]) s' where
  made := by simpa [channels_concat, ha, hgate] using h.made
  channels_nodup := by simpa [channels_concat, ha] using h.channels_nodup
  closed_made := by simpa [hgate] using h.closed_made
  closed_nodup := by simpa [hgate] using h.closed_nodup
  not_closed := by simpa [hgate] using h.not_closed
  pending c := by simpa [hgate, pending_concat, ha, hend] using h.pending c
  suspension := by simpa [hgate, hphase] using h.suspension
  latest c k hk := by
    obtain ⟨since, hlatest, hclosed⟩ := h.latest c k (hphase ▸ hk)
    exact ⟨since ++ [a], hlatest.concat ha, fun hc =>
      List.mem_append_left [a] (hclosed (hgate ▸ hc))⟩
  cancelled := hcancelled
  leaving := hleaving

/-- What does not touch the shell and cancels nothing preserves everything. -/
lemma quiet (h : Inv m as s) (ha : a.channel? = none) (hend : a.ends = false)
    (hgate : s'.gate = s.gate) (hphase : s'.phase = s.phase)
    (hcancelled : s'.machine.host.cancelled = s.machine.host.cancelled) :
    Inv m (as ++ [a]) s' :=
  h.idle ha hend hgate (by rw [hphase])
    (fun k hk => (h.cancelled k (Machine.isCancelled_congr hcancelled k ▸ hk)).concat a)
    fun c k hk => (h.leaving c k (hphase ▸ hk)).concat a

/-- The invocation goes on, and nothing is announced any more. -/
lemma returned (h : Inv m as s) (ha : a.channel? = none) (hend : a.ends = true)
    (hphase : s'.phase = .running) (hhalted : s'.gate.halted = none)
    (hmade : s'.gate.made = s.gate.made) (hclosed : s'.gate.closed = s.gate.closed)
    (hcancelled : ∀ k, s'.machine.isCancelled k = true → Cancelled m as k) :
    Inv m (as ++ [a]) s' where
  made := by simpa [channels_concat, ha, hmade] using h.made
  channels_nodup := by simpa [channels_concat, ha] using h.channels_nodup
  closed_made := by simpa [hmade, hclosed] using h.closed_made
  closed_nodup := by simpa [hclosed] using h.closed_nodup
  not_closed := by simp [hhalted]
  pending c := by simp [hhalted, pending_concat, ha, hend]
  suspension := by simp [hhalted]
  latest := by simp [hphase, Phase.suspension]
  cancelled k hk := (hcancelled k hk).concat a
  leaving := by simp [hphase]

/-- A new channel is announced. -/
lemma halt {n : Machine} (h : Inv m as ⟨n, .running⟩) (k : Option Context) :
    Inv m (as ++ [.suspended n.halt.1 k]) ⟨n.halt.2, .waiting n.halt.1 k⟩ := by
  have hgate : State.gate ⟨n.halt.2, .waiting n.halt.1 k⟩ =
      { State.gate ⟨n, .running⟩ with
        made := n.halt.1 + 1, halted := some n.halt.1 } :=
    Host.gate_setGate n.host n.shell.id _
  have hfresh : n.halt.1 ∉ channels as := fun hc => lt_irrefl _ (h.made _ hc)
  have hopen : n.halt.1 ∉ (State.gate ⟨n, .running⟩).closed := fun hc =>
    lt_irrefl _ (h.closed_made _ hc)
  exact
    { made := by
        rw [hgate, channels_concat]
        intro c hc
        rcases List.mem_append.1 hc with hc | hc
        · exact Nat.lt_succ_of_lt (h.made c hc)
        · rw [show c = n.halt.1 by simpa [Act.channel?] using hc]
          exact Nat.lt_succ_self _
      channels_nodup := by
        rw [channels_concat]
        exact h.channels_nodup.append (List.nodup_singleton _)
          (by simpa [Act.channel?] using hfresh)
      closed_made := by
        rw [hgate]
        exact fun c hc => Nat.lt_succ_of_lt (h.closed_made c hc)
      closed_nodup := by
        rw [hgate]
        exact h.closed_nodup
      not_closed := by
        rw [hgate]
        rintro c ⟨⟩
        exact hopen
      pending := fun c => by simp [hgate, pending_concat, Act.channel?]
      suspension := by
        rw [hgate]
        rintro c ⟨⟩
        exact ⟨k, rfl⟩
      latest := by
        rw [hgate]
        rintro c k ⟨⟩
        exact ⟨[], latest_suspended, fun hc => absurd hc hopen⟩
      cancelled := fun k hk => (h.cancelled k hk).concat _
      leaving := by simp }

/-- The announced channel is closed. -/
lemma closed (h : Inv m as s) (hhalted : s.gate.halted = some c)
    (hgate : s'.gate = { s.gate with halted := none, closed := c :: s.gate.closed })
    (hphase : s'.phase = s.phase)
    (hcancelled : s'.machine.host.cancelled = s.machine.host.cancelled) :
    Inv m (as ++ [.resumed true]) s' := by
  obtain ⟨k, hk⟩ := h.suspension c hhalted
  obtain ⟨since, hlatest, -⟩ := h.latest c k hk
  exact
    { made := by simpa [hgate, channels_concat, Act.channel?] using h.made
      channels_nodup := by simpa [channels_concat, Act.channel?] using h.channels_nodup
      closed_made := by
        rw [hgate]
        exact List.forall_mem_cons.2 ⟨h.made c hlatest.mem_channels, h.closed_made⟩
      closed_nodup := by
        rw [hgate]
        exact List.nodup_cons.2 ⟨h.not_closed c hhalted, h.closed_nodup⟩
      not_closed := by simp [hgate]
      pending := fun c => by simp [hgate, pending_concat, Act.channel?, Act.ends]
      suspension := by simp [hgate]
      latest := fun c' k' hk' => by
        obtain ⟨since', hlatest', -⟩ := h.latest c' k' (hphase ▸ hk')
        exact ⟨_, hlatest'.concat rfl, fun _ => by simp⟩
      cancelled := fun k hk =>
        (h.cancelled k (Machine.isCancelled_congr hcancelled k ▸ hk)).concat _
      leaving := fun c k hk => (h.leaving c k (hphase ▸ hk)).concat _ }

lemma release {n : Machine} {p : Phase} (h : Inv m as ⟨n, p⟩) :
    Inv m (as ++ [.resumed (n.release n.shell.id).1]) ⟨(n.release n.shell.id).2, p⟩ := by
  cases hhalted : (n.host.gate n.shell.id).halted with
  | none =>
    rw [Machine.release_of_none hhalted]
    exact h.quiet rfl rfl rfl rfl rfl
  | some c =>
    rw [Machine.release_of_some hhalted]
    exact h.closed hhalted (Host.gate_setGate n.host n.shell.id _) rfl rfl

/-- An invocation that sees its channel closed finds nothing announced. -/
lemma halted_of_closed {n : Machine} (h : Inv m as ⟨n, .waiting c k⟩)
    (hc : c ∈ (n.host.gate n.shell.id).closed) : (n.host.gate n.shell.id).halted = none := by
  refine Option.eq_none_iff_forall_ne_some.2 fun c' hhalted => h.not_closed c' hhalted ?_
  obtain ⟨k', hk'⟩ := h.suspension c' hhalted
  obtain ⟨rfl, -⟩ := Prod.mk.inj (Option.some.inj hk')
  exact hc

/-- Nothing is announced once an invocation has taken its announcement back. -/
lemma halted_withdraw {n : Machine} (h : Inv m as ⟨n, .leaving c k⟩) :
    ((n.host.gate n.shell.id).withdraw c).halted = none := by
  rw [Gate.withdraw]
  split_ifs with hc
  · rfl
  · refine Option.eq_none_iff_forall_ne_some.2 fun c' hhalted => hc ?_
    obtain ⟨k', hk'⟩ := h.suspension c' hhalted
    obtain ⟨rfl, -⟩ := Prod.mk.inj (Option.some.inj hk')
    exact hhalted

lemma step (h : Inv m as s) (hstep : Step s a s') : Inv m (as ++ [a]) s' := by
  cases hstep with
  | halt n k => exact h.halt k
  | release n p => exact h.release
  | ask n p =>
    rw [Machine.answer_isSuspended]
    exact h.quiet rfl rfl rfl rfl rfl
  | cancel n p k =>
    have hgate : State.gate ⟨n.cancel k, p⟩ = State.gate ⟨n, p⟩ := by cases k <;> rfl
    refine h.idle rfl rfl hgate rfl (fun k' hk' => ?_) fun c k hk => (h.leaving c k hk).concat _
    rcases Machine.isCancelled_cancel hk' with rfl | hk'
    · exact .inr (by simp)
    · exact (h.cancelled k' hk').concat _
  | wake k hc => exact h.returned rfl rfl rfl (h.halted_of_closed hc) rfl rfl h.cancelled
  | giveUp c hk =>
    refine h.idle rfl rfl rfl rfl (fun k hk => (h.cancelled k hk).concat _) fun c' k' hk' => ?_
    obtain ⟨-, rfl⟩ := Phase.leaving.inj hk'
    exact (h.cancelled _ hk).concat _
  | withdraw n c k =>
    have hgate : State.gate ⟨n.withdraw c, .running⟩ = (n.host.gate n.shell.id).withdraw c :=
      Host.gate_setGate n.host n.shell.id _
    exact h.returned rfl rfl rfl (hgate ▸ h.halted_withdraw)
      (hgate ▸ Gate.made_withdraw _ c) (hgate ▸ Gate.closed_withdraw _ c) h.cancelled
  | other p hid hgate hcancelled => exact h.quiet rfl rfl hgate rfl hcancelled

lemma run {bs : List Act} (h : Inv m as s) (hrun : Run s bs s') : Inv m (as ++ bs) s' := by
  induction hrun generalizing as with
  | nil s => rwa [List.append_nil]
  | cons hstep _ ih => simpa using ih (h.step hstep)

end Inv

/-- Every run can be looked at right before an act. -/
lemma Run.exists_inv {s : State} {before after : List Act}
    (hm : m.host.gate m.shell.id = {}) (h : Run ⟨m, .running⟩ (before ++ a :: after) s) :
    ∃ s₁ s₂, Run ⟨m, .running⟩ before s₁ ∧ Inv m before s₁ ∧ Step s₁ a s₂ ∧ Run s₂ after s := by
  obtain ⟨s₁, hbefore, hrest⟩ := append_iff.1 h
  obtain ⟨s₂, hstep, hafter⟩ := cons_iff.1 hrest
  exact ⟨s₁, s₂, hbefore, by simpa using (Inv.start hm).run hbefore, hstep, hafter⟩

/-! ### The hand-off -/

/-- An invocation and those who resume its shell agree on every suspension. -/
structure HandsOver (m : Machine) (as : List Act) (s : State) : Prop where
  /-- Every suspension has its own channel, which is closed once at most. -/
  closed_once : (channels as).Nodup ∧ s.gate.closed.Nodup
  /-- Resuming is effective exactly while a suspension is pending: once at most for each, after
  it was announced and before it is taken back. -/
  effective : ∀ before b after, as = before ++ .resumed b :: after →
    (b = true ↔ ∃ c, Pending before c)
  /-- Resuming in vain has no effect: all the rest happens without it. -/
  ineffective : ∀ before after, as = before ++ .resumed false :: after →
    Run ⟨m, .running⟩ (before ++ after) s
  /-- An invocation goes on either because this suspension was resumed, -/
  woken : ∀ before c after, as = before ++ .woken c :: after →
    ∃ k since, Latest before c k since ∧ .resumed true ∈ since
  /-- or because its context was cancelled. -/
  withdrawn : ∀ before c after, as = before ++ .withdrawn c :: after →
    ∃ k since, Latest before c k since ∧ Cancelled m before k
  /-- Whoever asks is told whether a suspension is pending, which none is from the time an
  invocation goes on until the next suspension. -/
  asked : ∀ before b after, as = before ++ .asked b :: after →
    (b = true ↔ ∃ c, Pending before c)

/-- The gate tells whether a suspension is pending. -/
lemma Inv.isHalted_iff {s : State} (h : Inv m as s) :
    s.gate.isHalted = true ↔ ∃ c, Pending as c := by
  rw [Gate.isHalted, Option.isSome_iff_exists]
  exact exists_congr h.pending

/-- Whatever an invocation and those around it do, in whatever order: no suspension is resumed
twice, ends for no reason or is mistaken for another. -/
theorem handsOver_of_run {s : State} (hm : m.host.gate m.shell.id = {})
    (h : Run ⟨m, .running⟩ as s) : HandsOver m as s where
  closed_once := by
    have hinv := (Inv.start hm).run h
    exact ⟨by simpa using hinv.channels_nodup, hinv.closed_nodup⟩
  effective before b after heq := by
    obtain ⟨s₁, s₂, -, hinv, hstep, -⟩ := Run.exists_inv hm (heq ▸ h)
    rw [← hinv.isHalted_iff]
    cases hstep with
    | release n p =>
      rw [State.gate, Gate.isHalted]
      cases hhalted : (n.host.gate n.shell.id).halted with
      | none => simp [Machine.release_of_none hhalted]
      | some c => simp [Machine.release_of_some hhalted]
  ineffective before after heq := by
    obtain ⟨s₁, s₂, hbefore, -, hstep, hafter⟩ := Run.exists_inv hm (heq ▸ h)
    obtain rfl := hstep.eq_of_resumed_false
    exact Run.append_iff.2 ⟨s₂, hbefore, hafter⟩
  woken before c after heq := by
    obtain ⟨s₁, s₂, -, hinv, hstep, -⟩ := Run.exists_inv hm (heq ▸ h)
    cases hstep with
    | wake k hc =>
      obtain ⟨since, hlatest, hclosed⟩ := hinv.latest c k rfl
      exact ⟨k, since, hlatest, hclosed hc⟩
  withdrawn before c after heq := by
    obtain ⟨s₁, s₂, -, hinv, hstep, -⟩ := Run.exists_inv hm (heq ▸ h)
    cases hstep with
    | withdraw n c k =>
      obtain ⟨since, hlatest, -⟩ := hinv.latest c k rfl
      exact ⟨k, since, hlatest, hinv.leaving c k rfl⟩
  asked before b after heq := by
    obtain ⟨s₁, s₂, -, hinv, hstep, -⟩ := Run.exists_inv hm (heq ▸ h)
    rw [← hinv.isHalted_iff]
    generalize ha : Act.asked b = a at hstep
    cases hstep with
    | ask n p =>
      obtain rfl := Act.asked.inj ha
      rw [Machine.answer_isSuspended]
      rfl
    | _ => cases ha

/-- A suspension that is resumed after its invocation saw that it is cancelled, and another one
that ends because it is resumed. -/
theorem handsOver_of_run_resumed_while_leaving :
    ∃ as s, as = [.resumed false, .suspended 0 (some 5), .asked true, .cancelled (some 5),
        .gaveUp 0, .resumed true, .asked false, .withdrawn 0, .suspended 1 none, .resumed true,
        .woken 1] ∧
      Run ⟨{}, .running⟩ as s ∧ HandsOver {} as s := by
  have hrun : ∃ s, Run ⟨{}, .running⟩ [.resumed false, .suspended 0 (some 5), .asked true,
      .cancelled (some 5), .gaveUp 0, .resumed true, .asked false, .withdrawn 0,
      .suspended 1 none, .resumed true, .woken 1] s :=
    ⟨_, .cons (.release _ _) <| .cons (.halt _ _) <| .cons (.ask _ _) <| .cons (.cancel _ _ _) <|
      .cons (.giveUp _ rfl) <| .cons (.release _ _) <| .cons (.ask _ _) <|
      .cons (.withdraw _ _ _) <| .cons (.halt _ _) <| .cons (.release _ _) <|
      .cons (.wake _ (.head _)) <| .nil _⟩
  obtain ⟨s, hrun⟩ := hrun
  exact ⟨_, s, rfl, hrun, handsOver_of_run rfl hrun⟩

end Handoff

end ConsoleShell
