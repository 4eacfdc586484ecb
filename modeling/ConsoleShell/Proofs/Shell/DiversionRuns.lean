/-
Runs of a diverted machine.

Every part of the interpreter does the same on a diverted machine as on the other one.  This is
shown part by part, from commands to lines, loops and invocations, and by induction on the fuel
for invocations inside one another.  The parts are put together by one rule for actions that
follow each other; the rule needs that the later action makes steps of the known kinds only, so
that what notices nothing in the end has noticed nothing in between.
-/
import ConsoleShell.Proofs.Shell.Containment
import ConsoleShell.Proofs.Shell.DiversionReading

namespace ConsoleShell

namespace Diversion

open Machine Interpreter

/-! ### Actions on a diverted machine -/

/-- Suppose `g`.  Whenever the second action returns and nothing has noticed the file, the first
one returns on the diverted machine, its result is that of the second one changed by `F`, and
the result of the second one has the property `P`. -/
structure Couples (d : Diversion) (part : Part) (g : Prop) {α : Type} (F : α → α) (P : α → Prop)
    (x₁ x₂ : ShellM FileStore α) : Prop where
  evolves : ShellM.Maintains Evolves x₂
  runs : g → ∀ {m₁ m₂ m₂' : Machine} {a : α}, d.Twin part m₁ m₂ → x₂ m₂ = some (a, m₂') →
    d.Quiet m₂' → ∃ m₁', x₁ m₁ = some (F a, m₁') ∧ P a ∧ d.Twin part m₁' m₂'

/-- The two actions have the same results. -/
abbrev Alike (d : Diversion) (part : Part) (g : Prop) {α : Type} (x₁ x₂ : ShellM FileStore α) :
    Prop :=
  d.Couples part g id (fun _ => True) x₁ x₂

section Rules

variable {d : Diversion} {part : Part} {g g' : Prop} {α β : Type} {F : α → α} {P : α → Prop}
  {G : β → β} {Q : β → Prop} {x₁ x₂ : ShellM FileStore α} {f₁ f₂ : α → ShellM FileStore β}

lemma Couples.when (h : d.Couples part g F P x₁ x₂) (hg : g' → g) :
    d.Couples part g' F P x₁ x₂ :=
  ⟨h.evolves, fun hg' => h.runs (hg hg')⟩

lemma Couples.pure {a b : α} (hb : b = F a) (ha : g → P a) :
    d.Couples part g F P (pure b) (pure a) := by
  refine ⟨ShellM.maintains_pure a, fun hg m₁ m₂ m₂' a' h hrun _ => ?_⟩
  obtain ⟨rfl, rfl⟩ := ShellM.pure_eq_some hrun
  exact ⟨m₁, by rw [hb]; rfl, ha hg, h⟩

lemma alike_pure (a : α) : d.Alike part g (pure a) (pure a) := Couples.pure rfl fun _ => trivial

/-- One action after another. -/
lemma Couples.bind (hx : d.Couples part g F P x₁ x₂)
    (hf : ∀ a, d.Couples part (g ∧ P a) G Q (f₁ (F a)) (f₂ a)) :
    d.Couples part g G Q (x₁ >>= f₁) (x₂ >>= f₂) := by
  refine ⟨ShellM.maintains_bind hx.evolves fun a => (hf a).evolves,
    fun hg m₁ m₂ m₂' b h hrun hquiet => ?_⟩
  obtain ⟨a, n₂, hx₂, hf₂⟩ := ShellM.bind_eq_some hrun
  obtain ⟨n₁, hx₁, ha, hn⟩ := hx.runs hg h hx₂ (hquiet.of_evolves ((hf a).evolves _ _ _ hf₂))
  obtain ⟨m₁', hf₁, hb, hm⟩ := (hf a).runs ⟨hg, ha⟩ hn hf₂ hquiet
  refine ⟨m₁', ?_, hb, hm⟩
  rw [ShellM.bind_apply, hx₁]
  exact hf₁

/-- One action after another that has the same result. -/
lemma Alike.bind (hx : d.Alike part g x₁ x₂) (hf : ∀ a, d.Couples part g G Q (f₁ a) (f₂ a)) :
    d.Couples part g G Q (x₁ >>= f₁) (x₂ >>= f₂) :=
  Couples.bind hx fun a => (hf a).when And.left

/-- What follows may look at a machine if it sees nothing that is diverted. -/
lemma Couples.getWith {k₁ k₂ : Machine → ShellM FileStore β}
    (hk : ∀ n ρ, k₁ (n.mirrored d part ρ) = k₁ n)
    (h : ∀ n, d.Couples part (g ∧ ∃ n₁, d.Twin part n₁ n) G Q (k₁ n) (k₂ n)) :
    d.Couples part g G Q (get >>= k₁) (get >>= k₂) := by
  refine ⟨ShellM.maintains_bind ShellM.maintains_get fun n => (h n).evolves,
    fun hg m₁ m₂ m₂' b htwin hrun hquiet => ?_⟩
  rw [ShellM.get_bind] at hrun
  obtain ⟨m₁', hrun', hb, htwin'⟩ := (h m₂).runs ⟨hg, m₁, htwin⟩ htwin hrun hquiet
  exact ⟨m₁', by rw [ShellM.get_bind, htwin.same (hk m₂), hrun'], hb, htwin'⟩

lemma Couples.get {k₁ k₂ : Machine → ShellM FileStore β}
    (hk : ∀ n ρ, k₁ (n.mirrored d part ρ) = k₁ n)
    (h : ∀ n, d.Couples part g G Q (k₁ n) (k₂ n)) :
    d.Couples part g G Q (get >>= k₁) (get >>= k₂) :=
  Couples.getWith hk fun n => (h n).when And.left

lemma alike_modify {f₁ f₂ : Machine → Machine} (hevolves : ∀ m, Evolves m (f₂ m))
    (h : g → ∀ {m₁ m₂}, d.Twin part m₁ m₂ → d.Quiet (f₂ m₂) → d.Twin part (f₁ m₁) (f₂ m₂)) :
    d.Alike part g (modify f₁) (modify f₂) := by
  refine ⟨ShellM.maintains_modify hevolves, fun hg m₁ m₂ m₂' a htwin hrun hquiet => ?_⟩
  obtain rfl := ShellM.modify_eq_some hrun
  exact ⟨f₁ m₁, rfl, trivial, h hg htwin hquiet⟩

lemma Couples.modifyGet {f₁ f₂ : Machine → α × Machine} (hevolves : ∀ m, Evolves m (f₂ m).2)
    (h : g → ∀ {m₁ m₂}, d.Twin part m₁ m₂ → d.Quiet (f₂ m₂).2 →
      (f₁ m₁).1 = F (f₂ m₂).1 ∧ P (f₂ m₂).1 ∧ d.Twin part (f₁ m₁).2 (f₂ m₂).2) :
    d.Couples part g F P (modifyGet f₁) (modifyGet f₂) := by
  refine ⟨ShellM.maintains_modifyGet hevolves, fun hg m₁ m₂ m₂' a htwin hrun hquiet => ?_⟩
  have heq := ShellM.modifyGet_eq_some hrun
  obtain ⟨hvalue, hP, htwin'⟩ := h hg htwin (by rw [heq]; exact hquiet)
  rw [heq] at hvalue hP htwin'
  exact ⟨(f₁ m₁).2, congrArg some (Prod.ext hvalue rfl), hP, htwin'⟩

end Rules

/-- Every invocation that is started does the same on a diverted machine. -/
def Faithful (d : Diversion) (invoke : Invoke) : Prop :=
  ∀ part : Part, part.IsActive → ∀ context source definitions,
    d.Alike part True (invoke context source definitions) (invoke context source definitions)

variable {d : Diversion} {part : Part} {g : Prop} {invoke : Invoke}

lemma Faithful.evolving (h : d.Faithful invoke) : Evolving invoke :=
  fun context source definitions => (h .bystander (.inl rfl) context source definitions).evolves

/-! ### Commands -/

lemma Twin.rememberScript {m₁ m₂ : Machine} (h : d.Twin part m₁ m₂) (path : Bytes) :
    d.Twin part (Interpreter.rememberScript path m₁) (Interpreter.rememberScript path m₂) := by
  have henvironment : m₁.host.environment = m₂.host.environment :=
    h.same (f := fun m => m.host.environment) fun _ => rfl
  rw [Interpreter.rememberScript, Interpreter.rememberScript, henvironment]
  split
  · split
    · exact h.setEnvironment _
    · exact h
  · exact h

section Commands

variable (hinvoke : d.Faithful invoke) (hpart : part.IsActive)
include hinvoke hpart

lemma Faithful.alike (context : Option Context) (source : Source) (definitions : Bytes) :
    d.Alike part g (invoke context source definitions) (invoke context source definitions) :=
  (hinvoke part hpart context source definitions).when fun _ => trivial

lemma alike_load (context : Option Context) (path definitions : Bytes) :
    d.Alike part g (load invoke context path definitions)
      (load invoke context path definitions) :=
  Alike.bind
    (alike_modify (Evolves.answers.rememberScript path) fun _ _ _ h _ => h.rememberScript path)
    fun _ => hinvoke.alike hpart _ _ _

lemma alike_perform {α : Type} {r : Routine α} (hr : g → r.Plain) :
    d.Alike part g (perform invoke r) (perform invoke r) := by
  induction r with
  | done a => exact alike_pure a
  | ask q next ih =>
    refine Alike.bind (Couples.modifyGet (fun m => Evolves.answers.answer trivial m)
      fun hg _ _ h hquiet => ?_) fun a => ih a fun hg => (hr hg).2 a
    obtain ⟨hanswer, htwin⟩ := h.answer hpart (hr hg).1 hquiet
    exact ⟨hanswer, trivial, htwin⟩
  | run line definitions next ih =>
    exact Couples.get (fun _ _ => rfl) fun n =>
      Alike.bind (hinvoke.alike hpart _ _ _) fun o => ih o fun hg => hr hg o
  | load path definitions next ih =>
    exact Couples.get (fun _ _ => rfl) fun n =>
      Alike.bind (alike_load hinvoke hpart _ _ _) fun o => ih o fun hg => hr hg o

lemma alike_call {body : CommandBody} (hbody : g → CommandBody.Plain body) (args : Arguments) :
    d.Alike part g (call invoke body args) (call invoke body args) := by
  refine Alike.bind (alike_perform hinvoke hpart fun hg => hbody hg args) fun v => ?_
  cases v with
  | done => exact alike_pure _
  | failed f => exact alike_pure _
  | crashed cause =>
    exact Alike.bind (alike_modify (fun m => m.evolves_record _) fun _ _ _ h _ => h.record _)
      fun _ => alike_pure _

end Commands

/-! ### Lines -/

section Lines

variable {m₁ m₂ : Machine} {rs : Redirects}

lemma leadRedirects_ofList (rs : List Redirection) :
    d.leadRedirects part (.ofList rs) = .ofList rs := by
  rw [leadRedirects, Redirects.ofList, List.map_map]
  rfl

lemma soundRedirects_ofList (rs : List Redirection) : d.SoundRedirects (.ofList rs) := by
  intro a ha
  obtain ⟨r, -, rfl⟩ := List.mem_map.1 ha
  exact ⟨fun _ hi => (by cases hi), fun _ he => (by cases he)⟩

lemma Twin.leadBack (h : d.Twin part m₁ m₂) (hrs : d.SoundRedirects rs) :
    (Redirects.detach (d.leadRedirects part rs) m₁).1 = (Redirects.detach rs m₂).1 ∧
      d.Twin part (Redirects.detach (d.leadRedirects part rs) m₁).2.2
        (Redirects.detach rs m₂).2.2 := by
  obtain ⟨-, hs⟩ := sound_restore hrs h.soundAll
  simp only [Redirects.detach, h.streams, restore_lead]
  obtain ⟨hfaults, -, htwin⟩ := (h.setStreams hs).close (Redirects.restore rs m₂.shell.streams).1
  exact ⟨hfaults, htwin⟩

lemma Twin.detach (h : d.Twin part m₁ m₂) (hrs : d.SoundRedirects rs) (location : Location) :
    d.Twin part (Interpreter.detach (d.leadRedirects part rs) location m₁)
      (Interpreter.detach rs location m₂) := by
  obtain ⟨hfaults, htwin⟩ := h.leadBack hrs
  rw [Interpreter.detach, Interpreter.detach]
  rcases h₁ : Redirects.detach (d.leadRedirects part rs) m₁ with ⟨faults, rs₁, n₁⟩
  rcases h₂ : Redirects.detach rs m₂ with ⟨faults', rs₂, n₂⟩
  rw [h₁, h₂] at hfaults htwin
  obtain rfl : faults = faults' := hfaults
  cases faults with
  | nil => exact htwin
  | cons f fs => exact htwin.report _ _

lemma couples_openTargets (rs : List Redirection) (location : Location) :
    d.Couples part g (Option.map (d.leadRedirects part))
      (fun opened => ∀ rs', opened = some rs' → d.SoundRedirects rs')
      (openTargets (.ofList rs) location) (openTargets (.ofList rs) location) := by
  refine ⟨conduct_evolves.openTargets _ location, fun _ m₁ m₂ m₂' opened h hrun hquiet => ?_⟩
  have hresolve : m₁.resolve = m₂.resolve := h.same fun _ => rfl
  rcases h₂ : Redirects.openAll m₂.resolve (.ofList rs) m₂ with ⟨fault, rs₂, n₂⟩
  rcases h₁ : Redirects.openAll m₁.resolve (.ofList rs) m₁ with ⟨fault', rs₁, n₁⟩
  have hopened : d.Quiet n₂ → fault' = fault ∧ rs₁ = d.leadRedirects part rs₂ ∧
      d.Twin part n₁ n₂ ∧ (fault = none → d.SoundRedirects rs₂) := by
    intro hn
    have hopen : d.Quiet (Redirects.openAll m₂.resolve (.ofList rs) m₂).2.2 := by
      rw [h₂]
      exact hn
    have hall := h.openAll (soundRedirects_ofList rs) hopen
    rwa [leadRedirects_ofList, h₂, ← hresolve, h₁] at hall
  cases fault with
  | none =>
    rw [openTargets_of_ok h₂] at hrun
    obtain ⟨rfl, rfl⟩ := Prod.mk.inj (Option.some.inj hrun)
    obtain ⟨rfl, rfl, htwin, hsound⟩ := hopened hquiet
    refine ⟨n₁, openTargets_of_ok h₁ location, fun rs' hrs' => ?_, htwin⟩
    obtain rfl := Option.some.inj hrs'
    exact hsound rfl
  | some f =>
    rw [openTargets_of_fault h₂] at hrun
    obtain ⟨rfl, rfl⟩ := Prod.mk.inj (Option.some.inj hrun)
    obtain ⟨rfl, -, htwin, -⟩ := hopened (hquiet.of_evolves (evolves_fail _ _ _))
    exact ⟨_, openTargets_of_fault h₁ location, fun rs' hrs' => (by cases hrs'),
      htwin.fail location _⟩

lemma alike_fail (location : Location) (message : Bytes) :
    d.Alike part g (modify (fail location message)) (modify (fail location message)) :=
  alike_modify (evolves_fail location message) fun _ _ _ h _ => h.fail location message

lemma alike_detach (hrs : g → d.SoundRedirects rs) (location : Location) :
    d.Alike part g (modify (detach (d.leadRedirects part rs) location))
      (modify (detach rs location)) :=
  alike_modify (evolves_detach rs location) fun hg _ _ h _ => h.detach (hrs hg) location

lemma couples_attach (hrs : g → d.SoundRedirects rs) :
    d.Couples part g (d.leadRedirects part) d.SoundRedirects
      (modifyGet fun m => (d.leadRedirects part rs).attach m)
      (modifyGet fun m => rs.attach m) := by
  refine Couples.modifyGet (fun m => .shell m _ _ _ _ _ _ _) fun hg _ _ h _ => ?_
  obtain ⟨hattached, htwin, hsound⟩ := h.attach (hrs hg)
  exact ⟨hattached, hsound, htwin⟩

section Dispatch

variable (hinvoke : d.Faithful invoke) (hpart : part.IsActive)
include hinvoke hpart

lemma alike_callMarked {c : Command CommandBody} (hc : g → CommandBody.Plain c.body)
    (args : Arguments) (words : List Bytes) (location : Location) :
    d.Alike part g (callMarked invoke c args words location)
      (callMarked invoke c args words location) := by
  refine Alike.bind (alike_modify (fun m => ?_) fun _ _ _ h _ =>
    ((h.setErrored false).record _).noteCall words) fun _ =>
      Alike.bind (alike_call hinvoke hpart hc args) fun failure => ?_
  · have hrecord := (m.setErrored false).evolves_record (.runCommand words)
    exact ((evolves_setErrored false m).trans hrecord).trans (.books _ _ _ _ _ _ _ _ _ _ _ _ _)
  · cases failure with
    | none => exact alike_pure ()
    | some f =>
      exact alike_modify (fun m => (evolves_record_report location f.message _ m).trans
        (evolves_setErrored true _)) fun _ _ _ h _ =>
          ((h.report location f.message).record _).setErrored true

lemma couples_callAttached {c : Command CommandBody} (hc : g → CommandBody.Plain c.body)
    (hrs : g → d.SoundRedirects rs) (args : Arguments) (words : List Bytes)
    (location : Location) :
    d.Couples part g (d.leadRedirects part) d.SoundRedirects
      (callAttached invoke c args words (d.leadRedirects part rs) location)
      (callAttached invoke c args words rs location) := by
  refine ⟨evolves_callAttached hinvoke.evolving c args words rs location,
    fun hg m₁ m₂ m₂' a h hrun hquiet => ?_⟩
  rw [callAttached_apply] at hrun
  obtain ⟨⟨u, n₂⟩, hcall, heq⟩ := Option.map_eq_some_iff.1 hrun
  obtain ⟨rfl, rfl⟩ := Prod.mk.inj heq
  obtain ⟨hattached, hattach, hsound⟩ := h.attach (hrs hg)
  -- the command runs between attaching the targets and putting the outer ones back
  have hbefore : d.Twin part (attached (d.leadRedirects part rs) m₁) (attached rs m₂) :=
    hattach.setAttachments _ _
  obtain ⟨n₁, hcall₁, -, hafter⟩ := (alike_callMarked hinvoke hpart hc args words location).runs
    hg hbefore hcall (hquiet.of_requests rfl)
  refine ⟨reattached m₁.shell.attachments n₁, ?_, hsound, hafter.setAttachments _ _⟩
  rw [callAttached_apply, hcall₁, hattached]
  rfl

lemma couples_dispatchOpen (hrs : g → d.SoundRedirects rs) (words : List Bytes)
    (location : Location) :
    d.Couples part g (d.leadRedirects part) d.SoundRedirects
      (dispatchOpen invoke words (d.leadRedirects part rs) location)
      (dispatchOpen invoke words rs location) := by
  have hreport : ∀ (message : Bytes) (e : Event),
      d.Alike part g (modify fun m => (report location message m).record e)
        (modify fun m => (report location message m).record e) := fun message e =>
    alike_modify (evolves_record_report location message e) fun _ _ _ h _ =>
      (h.report location message).record e
  cases words with
  | nil => exact Couples.pure rfl hrs
  | cons name words =>
    refine Alike.bind (alike_modify (evolves_setErrored true) fun _ _ _ h _ => h.setErrored true)
      fun _ => Couples.getWith (fun _ _ => rfl) fun n => ?_
    dsimp only
    split
    · exact Alike.bind ((hreport _ _).when And.left) fun _ =>
        Couples.pure rfl fun hg => hrs hg.1
    · rename_i c hfind
      split
      · exact Alike.bind ((hreport _ _).when And.left) fun _ =>
          Couples.pure rfl fun hg => hrs hg.1
      · refine couples_callAttached hinvoke hpart (fun hg => ?_) (fun hg => hrs hg.1) _ _ location
        obtain ⟨-, n₁, ρ, -, hρ⟩ := hg
        exact CommandTable.Plain.of_find hρ.table hfind

lemma alike_dispatch (line : Line) (location : Location) :
    d.Alike part g (dispatch invoke line location) (dispatch invoke line location) := by
  refine Couples.bind (couples_openTargets _ location) fun opened => ?_
  cases opened with
  | none => exact alike_pure ()
  | some rs =>
    exact Couples.bind (couples_dispatchOpen hinvoke hpart (fun hg => hg.2 rs rfl) _ location)
      fun rs' => alike_detach And.right location

lemma alike_nested (context : Option Context) (name : Bytes) (rs : List Redirection)
    (location : Location) :
    d.Alike part g (nested invoke context name (.ofList rs) location)
      (nested invoke context name (.ofList rs) location) := by
  rw [nested]
  split
  · exact Alike.bind (alike_fail location _) fun _ => alike_pure ()
  · refine Couples.bind (couples_openTargets rs location) fun opened => ?_
    cases opened with
    | none => exact alike_pure ()
    | some rs =>
      refine Couples.bind (couples_attach fun hg => hg.2 rs rfl) fun rs' =>
        Alike.bind (Alike.bind (hinvoke.alike hpart _ _ _) fun o => ?_) fun _ =>
          alike_detach And.right location
      split
      · exact alike_modify (evolves_setErrored true) fun _ _ _ h _ => h.setErrored true
      · exact alike_pure ()

lemma alike_handleSplit (context : Option Context) (line : Line) (location : Location) :
    d.Alike part g (handleSplit invoke context line location)
      (handleSplit invoke context line location) := by
  rw [handleSplit]
  split
  · rw [Redirects.without_ofList]
    exact Alike.bind (alike_nested hinvoke hpart context _ _ location) fun _ => alike_pure _
  · split
    · exact alike_pure _
    · exact Alike.bind (alike_dispatch hinvoke hpart line location) fun _ => alike_pure _

omit hinvoke in
lemma alike_writeLine (text : Bytes) :
    d.Alike part g (modify fun m => m.writeLine .standard text)
      (modify fun m => m.writeLine .standard text) :=
  alike_modify (Evolves.inputOutput.writeLine _ _) fun _ _ _ h _ => h.write hpart _ _

lemma alike_handleExpanded (context : Option Context) (line : Bytes) (location : Location)
    (script : Bool) :
    d.Alike part g (handleExpanded invoke context line location script)
      (handleExpanded invoke context line location script) := by
  have hshown : d.Alike part g (handleShown invoke context line location)
      (handleShown invoke context line location) := by
    rw [handleShown]
    split
    · exact alike_pure _
    · split
      · exact alike_pure _
      · exact Alike.bind (alike_fail location _) fun _ => alike_pure _
      · exact alike_handleSplit hinvoke hpart context _ location
  rw [handleExpanded]
  split
  · exact Alike.bind (alike_writeLine hpart line) fun _ => hshown
  · exact hshown

lemma alike_handle (context : Option Context) (raw : Bytes) (location : Location)
    (script : Bool) :
    d.Alike part g (Interpreter.handle invoke context raw location script)
      (Interpreter.handle invoke context raw location script) := by
  rw [Interpreter.handle]
  simp only
  split
  · split
    · exact Alike.bind (alike_writeLine hpart raw) fun _ => alike_pure _
    · exact alike_pure _
  · refine Couples.get (fun _ _ => rfl) fun n => ?_
    split
    · exact Alike.bind (alike_fail location _) fun _ => alike_pure _
    · exact alike_handleExpanded hinvoke hpart context _ location script

end Dispatch

end Lines

/-! ### Suspensions -/

section Suspensions

variable {m₁ m₂ n₁ n₂ : Machine}

/-- The operator's shell takes over. -/
lemma Twin.takeOver (h : d.Twin part m₁ m₂) (hpart : part.IsActive) :
    d.Twin .bystander { m₁ with shell := m₁.host.operator }
      { m₂ with shell := m₂.host.operator } := by
  obtain ⟨ρ, rfl, hρ⟩ := h
  have hown : d.own .bystander ρ.passed = d.own part ρ.passed := by
    rcases hpart with rfl | rfl <;> rfl
  refine ⟨{ ρ with attachments := ρ.operated }, ?_, ?_⟩
  · simp only [mirrored, hown]
  · exact { hρ with shell := hρ.operator, running := hρ.other }

/-- The operator's shell gives the place back. -/
lemma Twin.giveBack (h : d.Twin part m₁ m₂) (hpart : part.IsActive)
    (hn : d.Twin .bystander n₁ n₂) (attended : List Attendance) :
    d.Twin part
      { shell := m₁.shell, host := { n₁.host with operator := n₁.shell, attended } }
      { shell := m₂.shell, host := { n₂.host with operator := n₂.shell, attended } } := by
  obtain ⟨ρ, rfl, hρ⟩ := h
  obtain ⟨σ, rfl, hσ⟩ := hn
  have hown : d.own .bystander σ.passed = d.own part σ.passed := by
    rcases hpart with rfl | rfl <;> rfl
  refine ⟨{ σ with attachments := ρ.attachments, operated := σ.attachments }, ?_, ?_⟩
  · simp only [mirrored, hown]
  · exact
      { hσ with
        shell := hρ.shell
        operator := hσ.shell
        running := hρ.running
        other := hσ.running }

/-- What the operator reads and writes is the same. -/
lemma Twin.written (h : d.Twin part m₁ m₂) (hn : d.Twin .bystander n₁ n₂)
    (hgrows : m₂.host.traffic <+: n₂.host.traffic) :
    (n₁.host.traffic.drop m₁.host.traffic.length).filter (fun t => t.shell == n₁.shell.id) =
      (n₂.host.traffic.drop m₂.host.traffic.length).filter fun t => t.shell == n₂.shell.id := by
  obtain ⟨ρ, rfl, hρ⟩ := h
  obtain ⟨σ, rfl, hσ⟩ := hn
  obtain ⟨new, hnew⟩ := hgrows
  have hbefore : m₂.host.traffic = d.traffic ++ ρ.passed := hρ.traffic
  have hafter : n₂.host.traffic = d.traffic ++ σ.passed := hσ.traffic
  have hid : n₂.shell.id ≠ d.shell := hσ.running
  have hpassed : σ.passed = ρ.passed ++ new := by
    rw [hafter, hbefore, List.append_assoc] at hnew
    exact (List.append_cancel_left hnew).symm
  have hskip : (new.filter fun t => !d.takes t).filter (fun t => t.shell == n₂.shell.id) =
      new.filter fun t => t.shell == n₂.shell.id := by
    rw [List.filter_filter]
    refine List.filter_congr fun t _ => ?_
    by_cases ht : t.shell = n₂.shell.id
    · simp [takes, ht, hid]
    · simp [ht]
  show ((d.traffic ++ σ.passed.filter fun t => !d.takes t).drop
      (d.traffic ++ ρ.passed.filter fun t => !d.takes t).length).filter
        (fun t => t.shell == n₂.shell.id) = _
  rw [← hnew, List.drop_left, hpassed, List.filter_append, ← List.append_assoc, List.drop_left,
    hskip]

/-- The operator resumes the shell. -/
lemma Twin.resumeByOperator (h : d.Twin part m₁ m₂) :
    d.Twin part (Interpreter.resumeByOperator m₁) (Interpreter.resumeByOperator m₂) := by
  have hid : m₁.shell.id = m₂.shell.id := h.same (f := fun m => m.shell.id) fun _ => rfl
  obtain ⟨heffective, hreleased⟩ := h.release m₂.shell.id
  rw [Interpreter.resumeByOperator, Interpreter.resumeByOperator, hid]
  dsimp only
  rw [heffective]
  exact hreleased.update (f := fun m => { m with host := { m.host with
    attended := m.host.attended ++ [.resumed (m₂.release m₂.shell.id).1] } }) (fun _ => rfl) rfl

variable (hinvoke : d.Faithful invoke) (hpart : part.IsActive)
include hinvoke hpart

lemma alike_attend (line : Bytes) :
    d.Alike part g (attend invoke line) (attend invoke line) := by
  refine ⟨conduct_evolves.attended hinvoke.evolving line, fun hg m₁ m₂ m₂' u h hrun hquiet => ?_⟩
  rw [attend_apply] at hrun
  obtain ⟨⟨o, n₂⟩, hline, heq⟩ := Option.map_eq_some_iff.1 hrun
  cases heq
  obtain ⟨n₁, hline₁, -, hn⟩ := (hinvoke .bystander (.inl rfl) none (.line line) []).runs
    trivial (h.takeOver hpart) hline (hquiet.of_requests rfl)
  have hgrows := (hinvoke.evolving none (.line line) [] _ _ _ hline).grows.2
  have hattended : n₁.host.attended = n₂.host.attended :=
    hn.same (f := fun m => m.host.attended) fun _ => rfl
  refine ⟨_, ?_, trivial, h.giveBack hpart hn _⟩
  rw [attend_apply, hline₁]
  simp only [Option.map_some, h.written hn hgrows, hattended]
  rfl

lemma alike_attendAll (lines : List Bytes) :
    d.Alike part g (attendAll invoke lines) (attendAll invoke lines) := by
  induction lines with
  | nil => exact alike_pure ()
  | cons line lines ih => exact Alike.bind (alike_attend hinvoke hpart line) fun _ => ih

lemma alike_suspend (context : Option Context) :
    d.Alike part g (suspend invoke context) (suspend invoke context) := by
  have hwithdraw (c : Nat) : d.Alike part g (modify fun m => m.withdraw c)
      (modify fun m => m.withdraw c) :=
    alike_modify (fun m => evolves_withdraw m c) fun _ _ _ h _ => h.withdraw c
  have hcancel : d.Alike part g (modify fun m => m.cancel context)
      (modify fun m => m.cancel context) :=
    alike_modify (fun m => evolves_cancel m context) fun _ _ _ h _ => h.cancel context
  rw [suspend]
  refine Alike.bind (Couples.modifyGet evolves_halt fun _ n₁ n₂ h _ =>
      ⟨h.halt.1, trivial, h.halt.2⟩) fun c => Couples.get (fun _ _ => rfl) fun n => ?_
  dsimp only
  split
  · exact Alike.bind hcancel fun _ => hwithdraw c
  · rename_i step plan _
    refine Alike.bind (alike_modify (fun m => ?_) fun _ n₁ n₂ h _ => ?_) fun _ =>
      Alike.bind (alike_attendAll hinvoke hpart step.lines) fun _ => ?_
    · exact .books m _ _ _ _ _ _ _ _ _ _ _ _
    · exact h.update (f := fun m => { m with host := { m.host with plan } }) (fun _ => rfl) rfl
    · split
      · refine Alike.bind (alike_modify (fun m => ?_) fun _ n₁ n₂ h _ => ?_) fun _ => hwithdraw c
        · exact (Evolves.answers.release _ m).trans (.books _ _ _ _ _ _ _ _ _ _ _ _ _)
        · exact h.resumeByOperator
      · exact Alike.bind hcancel fun _ => hwithdraw c
      · exact hwithdraw c

lemma alike_applyPolicy (context : Option Context) (failure : Option Failure) :
    d.Alike part g (applyPolicy invoke context failure) (applyPolicy invoke context failure) := by
  have hwrite : ∀ text, d.Alike part g (modify fun m => m.writeLine .error text)
      (modify fun m => m.writeLine .error text) := fun text =>
    alike_modify (Evolves.inputOutput.writeLine _ _) fun _ _ _ h _ => h.write hpart _ _
  rw [applyPolicy]
  refine Couples.get (fun _ _ => rfl) fun n => ?_
  split
  · exact alike_pure _
  · split
    · exact alike_pure _
    · split
      · exact alike_pure _
      · exact Alike.bind (hwrite _) fun _ => alike_pure _
      · split
        · refine Alike.bind (hwrite _) fun _ => Couples.get (fun n ρ => ?_) fun n => ?_
          · cases context <;> rfl
          · split <;> exact alike_pure _
        · exact Alike.bind (hwrite _) fun _ =>
            Alike.bind (alike_suspend hinvoke hpart context) fun _ => alike_pure _

end Suspensions

/-! ### Invocations -/

section Invocations

variable (hinvoke : d.Faithful invoke) (hpart : part.IsActive)
include hinvoke hpart

omit hinvoke in
lemma couples_readLine {r : Reader} (hr : g → d.SoundReader r) :
    d.Couples part g (fun p => (p.1, d.leadReader part p.2)) (fun p => d.SoundReader p.2)
      (modifyGet fun m =>
        let (line, reader, m) := readLine (d.leadReader part r) m
        ((line, reader), m))
      (modifyGet fun m =>
        let (line, reader, m) := readLine r m
        ((line, reader), m)) := by
  refine Couples.modifyGet (Evolves.inputOutput.readLine r) fun hg _ _ h hquiet => ?_
  obtain ⟨hline, hreader, htwin, hsound⟩ := h.readLine hpart (hr hg) hquiet
  exact ⟨Prod.ext hline hreader, hsound, htwin⟩

lemma couples_loop (context : Option Context) (script : Bool) (fuel : Nat) {r : Reader}
    (hr : g → d.SoundReader r) (failure : Option Failure) (location : Location) :
    d.Couples part g (fun p => (p.1, d.leadReader part p.2)) (fun p => d.SoundReader p.2)
      (loop readLine invoke context script fuel ⟨d.leadReader part r, failure, location⟩)
      (loop readLine invoke context script fuel ⟨r, failure, location⟩) := by
  induction fuel generalizing g r failure location with
  | zero =>
    refine ⟨fun m a m' h => ?_, fun _ _ _ _ _ _ hrun _ => ?_⟩
    · cases h
    · cases hrun
  | succ fuel ih =>
    rw [loop, loop]
    refine Couples.get (fun n ρ => ?_) fun n => ?_
    · cases context <;> rfl
    split
    · exact Couples.pure rfl hr
    · refine Alike.bind (alike_applyPolicy hinvoke hpart context failure) fun decision => ?_
      cases decision with
      | finish f => exact Couples.pure rfl hr
      | readOn failure =>
        refine Couples.bind (couples_readLine hpart hr) fun answer => ?_
        obtain ⟨line, reader⟩ := answer
        cases line with
        | none => exact Couples.pure rfl And.right
        | some raw =>
          refine Alike.bind (alike_handle hinvoke hpart context raw _ script) fun c => ?_
          cases c with
          | leave => exact Couples.pure rfl And.right
          | goOn => exact ih And.right _ _

omit hinvoke hpart in
lemma Twin.enter {m₁ m₂ : Machine} (h : d.Twin part m₁ m₂) (context : Option Context)
    (scope : Scope) (defs : List Definition) :
    d.Twin part (Interpreter.enter context scope defs m₁)
      (Interpreter.enter context scope defs m₂) := by
  refine h.update (f := Interpreter.enter context scope defs) (fun ρ => ?_) ?_
  · simp only [Interpreter.enter]
    rw [apply_ite (fun m : Machine => m.mirrored d part ρ)]
    rfl
  · obtain ⟨sessions, heq⟩ := enter_eq context scope defs m₂
    rw [heq]
    rfl

omit hinvoke hpart in
lemma Twin.leave {m₁ m₂ : Machine} (h : d.Twin part m₁ m₂) (context : Option Context) :
    d.Twin part (Interpreter.leave context m₁) (Interpreter.leave context m₂) := by
  refine h.update (f := Interpreter.leave context) (fun ρ => ?_) ?_
  · simp only [Interpreter.leave]
    rw [apply_ite (fun m : Machine => m.mirrored d part ρ)]
    rfl
  · obtain ⟨sessions, heq⟩ := leave_eq context m₂
    rw [heq]
    rfl

/-- An invocation does the same, if those inside it do. -/
lemma alike_invocation (fuel : Nat) (context : Option Context) (source : Source)
    (definitions : Bytes) :
    d.Alike part g (invocation invoke fuel context source definitions)
      (invocation invoke fuel context source definitions) := by
  refine Couples.bind (Couples.modifyGet (F := Except.map (d.leadReader part))
    (P := fun opened => ∀ r, opened = .ok r → d.SoundReader r)
    (Evolves.inputOutput.openSource source) fun _ _ _ h hquiet => ?_) fun opened => ?_
  · obtain ⟨hopened, htwin, hsound⟩ := h.openSource hquiet
    exact ⟨hopened, hsound, htwin⟩
  cases opened with
  | error f => exact alike_pure _
  | ok reader =>
    simp only [Except.map]
    split
    · rename_i f _
      refine Alike.bind (alike_modify (fun m => ?_) fun _ _ _ h _ => ?_) fun _ => alike_pure _
      · exact (Evolves.inputOutput.writeLine _ _ m).trans (Evolves.inputOutput.closeReader _ _)
      · exact (h.complain _).closeReader reader
    · rename_i defs _
      -- the context that is put back is the same, and so is the mark of the invocation
      refine Couples.get (fun _ _ => rfl) fun n => Alike.bind (alike_modify
        (evolves_enter context source.scope defs) fun _ _ _ h _ => h.enter _ _ _) fun _ => ?_
      refine Couples.bind (couples_loop hinvoke hpart _ _ _ (fun hg => hg.2 reader rfl) _ _)
        fun ended => ?_
      refine Couples.get (fun _ _ => rfl) fun n' => Alike.bind (alike_modify (fun m => ?_)
        fun _ _ _ h _ => (h.leave _).closeReader _) fun _ => alike_pure _
      exact (evolves_leave _ m).trans (Evolves.inputOutput.closeReader _ _)

end Invocations

/-- Every invocation does the same, however deeply invocations nest in it. -/
theorem faithful_invoke (d : Diversion) (fuel : Nat) : d.Faithful (Interpreter.invoke fuel) := by
  induction fuel with
  | zero =>
    refine fun part hpart context source definitions =>
      ⟨fun m a m' h => ?_, fun _ _ _ _ _ _ h _ => ?_⟩
    · cases h
    · cases h
  | succ fuel ih =>
    exact fun part hpart context source definitions =>
      alike_invocation ih hpart fuel context source definitions

end Diversion

end ConsoleShell
