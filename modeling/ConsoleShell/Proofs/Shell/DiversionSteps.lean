/-
Steps of a diverted machine.

Everything that the interpreter does between two decisions keeps a diverted machine and the other
one in their relation: it reads and writes streams, answers commands, opens, leads and closes the
targets of redirections, and reads lines.  What comes of a step is the same in both, up to the
numbers of open files and to where the streams lead.
-/
import ConsoleShell.Proofs.Shell.Diversion

namespace ConsoleShell

/-! ### Opening a target -/

namespace Redirects

variable {resolve : Bytes → Bytes} {r : Redirection} {saved : Option Endpoint} {m : Machine}

lemma openTarget_nameless (h : r.name = []) :
    openTarget resolve ⟨r, none, saved⟩ m = (.error ⟨r.name, .notExist⟩, m) := by
  rw [openTarget, h]
  rfl

lemma openTarget_named (h : r.name ≠ []) :
    openTarget resolve ⟨r, none, saved⟩ m =
      match m.openFile (.openFile (resolve r.name) r.mode.flags) with
      | (.ok i, m) => (.ok ⟨r, some i, saved⟩, m)
      | (.error f, m) => (.error ⟨r.name, f.reason⟩, m) := by
  have hname : r.name.isEmpty = false := by simpa using h
  change (if r.name.isEmpty then _ else _) = _
  rw [hname, Machine.openPath_eq]
  rcases m.openFile (.openFile (resolve r.name) r.mode.flags) with ⟨_ | _, _⟩ <;> rfl

end Redirects

namespace Diversion

open Machine

variable {d : Diversion} {part : Part} {m₁ m₂ : Machine}

/-! ### Streams -/

lemma lead_session {fd : Nat} (h : ¬(part = .diverted ∧ fd = 1)) :
    d.lead part fd .session = .session := if_neg h

/-- Reading from the input stream. -/
lemma Twin.read (h : d.Twin part m₁ m₂) {e : Endpoint} (he : d.Sound e) (count : Nat) :
    (Machine.read (d.lead part 0 e) count m₁).1 = (Machine.read e count m₂).1 ∧
      d.Twin part (Machine.read (d.lead part 0 e) count m₁).2 (Machine.read e count m₂).2 := by
  cases e with
  | null => exact ⟨rfl, h⟩
  | session =>
    have hinput : m₁.shell.input = m₂.shell.input := by
      obtain ⟨ρ, rfl, -⟩ := h
      rfl
    have hleft : ∀ input, d.Twin part { m₁ with shell := { m₁.shell with input } }
        { m₂ with shell := { m₂.shell with input } } := by
      obtain ⟨ρ, rfl, hρ⟩ := h
      exact fun input => ⟨ρ, rfl, { hρ with }⟩
    rw [lead_session (by simp), Machine.read, Machine.read, hinput]
    dsimp only
    split
    · exact ⟨rfl, (hleft _).transfer (.inl (by decide)) _⟩
    · exact ⟨rfl, hleft _⟩
  | file i =>
    have hi : i ∉ d.stale := fun hmem => he i hmem rfl
    show (Machine.read (.file (d.shift i)) count m₁).1 = _ ∧ d.Twin part
      (Machine.read (.file (d.shift i)) count m₁).2 _
    cases hf : m₂.host.handles[i]? with
    | none =>
      simp only [Machine.read, readFile, h.getElem?_handles, hf]
      exact ⟨trivial, h⟩
    | some f =>
      have hother := h.key_ne hi hf
      have hread : f.read m₁.host.store count = f.read m₂.host.store count := by
        obtain ⟨ρ, rfl, hρ⟩ := h
        obtain ⟨n, -, hstore⟩ := hρ.file
        exact OpenFile.read_overlaid hstore hother count
      obtain ⟨position, hhandle⟩ := f.read_eq m₂.host.store count
      simp only [Machine.read, readFile, h.getElem?_handles, hf, FileBase.read_store, hread]
      exact ⟨trivial, h.setFile hf (by rw [hhandle])⟩

lemma Twin.available (h : d.Twin part m₁ m₂) {e : Endpoint} (he : d.Sound e) :
    m₁.available (d.lead part 0 e) = m₂.available e := by
  cases e with
  | null => rfl
  | session =>
    obtain ⟨ρ, rfl, -⟩ := h
    rw [lead_session (by simp)]
    rfl
  | file i =>
    have hi : i ∉ d.stale := fun hmem => he i hmem rfl
    show ((m₁.host.handles[d.shift i]?).map fun f => f.remaining m₁.host.store).getD 0 = _
    rw [h.getElem?_handles, Machine.available]
    cases hf : m₂.host.handles[i]? with
    | none => rfl
    | some f =>
      have hother := h.key_ne hi hf
      obtain ⟨ρ, rfl, hρ⟩ := h
      obtain ⟨n, -, hstore⟩ := hρ.file
      exact OpenFile.remaining_overlaid hstore hother

lemma Twin.readAll (h : d.Twin part m₁ m₂) {e : Endpoint} (he : d.Sound e) :
    (m₁.readAll (d.lead part 0 e)).1 = (m₂.readAll e).1 ∧
      d.Twin part (m₁.readAll (d.lead part 0 e)).2 (m₂.readAll e).2 := by
  obtain ⟨hanswer, htwin⟩ := h.read he (m₂.available e + 1)
  rw [Machine.readAll, Machine.readAll, h.available he]
  rcases h₁ : Machine.read (d.lead part 0 e) (m₂.available e + 1) m₁ with ⟨answer, n₁⟩
  rcases h₂ : Machine.read e (m₂.available e + 1) m₂ with ⟨answer', n₂⟩
  rw [h₁, h₂] at hanswer htwin
  obtain rfl : answer = answer' := hanswer
  cases answer with
  | ok data => exact ⟨rfl, htwin⟩
  | error fault => cases fault <;> exact ⟨rfl, htwin⟩

/-- Writing to an output stream. -/
lemma Twin.writeTo (h : d.Twin part m₁ m₂) {e : Endpoint} (he : d.Sound e) {fd : Nat}
    (hfd : fd ≠ 1 ∨ part.IsActive) (text : Bytes) :
    d.Twin part (m₁.writeTo fd (d.lead part fd e) text) (m₂.writeTo fd e text) := by
  cases e with
  | null => exact h
  | file i => exact (h.writeFile (fun hmem => he i hmem rfl) text).2
  | session =>
    have hsilent : ∀ id (t : Trigger), t.written = none → t.recorded = none →
        (t.shell == id && t.written.any fun part => Bytes.hasInfix part text) = false := by
      intro id t ht _
      rw [ht]
      simp
    by_cases hdiverted : part = .diverted ∧ fd = 1
    · obtain ⟨rfl, rfl⟩ := hdiverted
      have hlead : d.lead .diverted 1 .session = .file d.handle := by
        rw [lead, if_pos ⟨rfl, rfl⟩]
      rw [hlead, Machine.writeTo, Machine.writeTo]
      have htwin := h.divert text
      have hquiet : ∀ t ∈ (m₂.transfer 1 text).host.triggers, (t.shell == m₂.shell.id &&
          t.written.any fun part => Bytes.hasInfix part text) = false := by
        obtain ⟨ρ, -, hρ⟩ := htwin
        exact fun t ht => hsilent _ t (hρ.triggers t ht).1 (hρ.triggers t ht).2
      rw [trip_of_silent hquiet]
      exact htwin
    · have hid : m₁.shell.id = m₂.shell.id := by
        obtain ⟨ρ, rfl, -⟩ := h
        rfl
      have hplain : fd ≠ 1 ∨ part = .bystander := by
        rcases hfd with hfd | rfl | rfl
        · exact .inl hfd
        · exact .inr rfl
        · exact .inl fun heq => hdiverted ⟨rfl, heq⟩
      rw [lead_session hdiverted, Machine.writeTo, Machine.writeTo, hid]
      exact (h.transfer hplain text).trip (hsilent _)

/-- The streams of the running shell do not lead to the file itself. -/
lemma Twin.sound (h : d.Twin part m₁ m₂) :
    d.Sound m₂.shell.streams.input ∧ d.Sound m₂.shell.streams.output ∧
      d.Sound m₂.shell.streams.error := by
  obtain ⟨ρ, -, hρ⟩ := h
  exact ⟨hρ.shell.streams 0 _ rfl, hρ.shell.streams 1 _ rfl, hρ.shell.streams 2 _ rfl⟩

lemma Twin.streams (h : d.Twin part m₁ m₂) :
    m₁.shell.streams = d.leadAll part m₂.shell.streams := by
  obtain ⟨ρ, rfl, -⟩ := h
  rfl

lemma Twin.write (h : d.Twin part m₁ m₂) (hpart : part.IsActive) (o : Output) (text : Bytes) :
    d.Twin part (m₁.write o text) (m₂.write o text) := by
  rw [Machine.write, Machine.write, h.streams]
  cases o with
  | standard => exact h.writeTo h.sound.2.1 (.inr hpart) text
  | error => exact h.writeTo h.sound.2.2 (.inl (by decide)) text

/-- Diagnostics are never diverted. -/
lemma Twin.complain (h : d.Twin part m₁ m₂) (text : Bytes) :
    d.Twin part (m₁.write .error text) (m₂.write .error text) := by
  rw [Machine.write, Machine.write, h.streams]
  exact h.writeTo h.sound.2.2 (.inl (by decide)) text

/-! ### Changes that the relation does not look at -/

/-- A change that does not depend on what is diverted and that the relation does not look at. -/
lemma Twin.update (h : d.Twin part m₁ m₂) {f : Machine → Machine}
    (hf : ∀ ρ, f (m₂.mirrored d part ρ) = (f m₂).mirrored d part ρ)
    (hview : (f m₂).view = m₂.view) : d.Twin part (f m₁) (f m₂) := by
  obtain ⟨ρ, rfl, hρ⟩ := h
  exact ⟨ρ, hf ρ, hview ▸ hρ⟩

lemma Twin.modifyScope (h : d.Twin part m₁ m₂) (f : Scope → Scope) :
    d.Twin part (m₁.modifyScope f) (m₂.modifyScope f) := by
  have hscopes : m₁.shell.scopes = m₂.shell.scopes := by
    obtain ⟨ρ, rfl, -⟩ := h
    rfl
  rw [Machine.modifyScope, Machine.modifyScope, hscopes]
  cases m₂.shell.scopes with
  | nil => exact h
  | cons s rest =>
    exact h.update
      (f := fun m => { m with shell := { m.shell with scopes := f s :: rest } }) (fun _ => rfl) rfl

lemma Twin.setErrored (h : d.Twin part m₁ m₂) (errored : Bool) :
    d.Twin part (m₁.setErrored errored) (m₂.setErrored errored) :=
  h.modifyScope _

lemma Twin.setEnvironment (h : d.Twin part m₁ m₂) (e : Environment) :
    d.Twin part (m₁.setEnvironment e) (m₂.setEnvironment e) :=
  h.update (f := fun m => m.setEnvironment e) (fun _ => rfl) rfl

lemma Twin.setVariable (h : d.Twin part m₁ m₂) (name value : Bytes) :
    (m₁.setVariable name value).1 = (m₂.setVariable name value).1 ∧
      d.Twin part (m₁.setVariable name value).2 (m₂.setVariable name value).2 := by
  have henvironment : m₁.host.environment = m₂.host.environment := by
    obtain ⟨ρ, rfl, -⟩ := h
    rfl
  rw [Machine.setVariable, Machine.setVariable, henvironment]
  split
  · exact ⟨rfl, h⟩
  · exact ⟨rfl, h.setEnvironment _⟩

lemma Twin.halt (h : d.Twin part m₁ m₂) :
    m₁.halt.1 = m₂.halt.1 ∧ d.Twin part m₁.halt.2 m₂.halt.2 := by
  refine ⟨?_, h.update (f := fun m => m.halt.2) (fun _ => rfl) rfl⟩
  obtain ⟨ρ, rfl, -⟩ := h
  rfl

lemma Twin.withdraw (h : d.Twin part m₁ m₂) (channel : Nat) :
    d.Twin part (m₁.withdraw channel) (m₂.withdraw channel) :=
  h.update (f := fun m => m.withdraw channel) (fun _ => rfl) rfl

lemma Twin.release (h : d.Twin part m₁ m₂) (id : Nat) :
    (m₁.release id).1 = (m₂.release id).1 ∧
      d.Twin part (m₁.release id).2 (m₂.release id).2 := by
  have hgate : m₁.host.gate id = m₂.host.gate id := by
    obtain ⟨ρ, rfl, -⟩ := h
    rfl
  rw [Machine.release, Machine.release, hgate]
  split
  · exact ⟨rfl, h⟩
  · rename_i gate _
    exact ⟨rfl, h.update (f := fun m => { m with host := m.host.setGate id gate })
      (fun _ => rfl) rfl⟩

lemma Twin.resume (h : d.Twin part m₁ m₂) (name : Bytes) :
    (m₁.resume name).1 = (m₂.resume name).1 ∧
      d.Twin part (m₁.resume name).2 (m₂.resume name).2 := by
  have hsession : m₁.host.session? name = m₂.host.session? name := by
    obtain ⟨ρ, rfl, -⟩ := h
    rfl
  rw [Machine.resume, Machine.resume, hsession]
  split
  · exact ⟨rfl, h⟩
  · rename_i id _
    obtain ⟨heffective, htwin⟩ := h.release id
    exact ⟨congrArg some heffective, htwin⟩

lemma Twin.cancel (h : d.Twin part m₁ m₂) (context : Option Context) :
    d.Twin part (m₁.cancel context) (m₂.cancel context) := by
  cases context with
  | none => exact h
  | some c => exact h.update (f := fun m => m.cancel (some c)) (fun _ => rfl) rfl

lemma Twin.noteCall (h : d.Twin part m₁ m₂) (words : List Bytes) :
    d.Twin part (m₁.noteCall words) (m₂.noteCall words) := by
  obtain ⟨ρ, rfl, hρ⟩ := h
  exact ⟨{ ρ with calls := ⟨words, (m₂.mirrored d part ρ).shell⟩ :: ρ.calls }, rfl, { hρ with }⟩

/-- What commands of the running line can write to directly is left aside. -/
lemma Twin.setAttachments (h : d.Twin part m₁ m₂) (as₁ as₂ : List Attachment) :
    d.Twin part { m₁ with shell := { m₁.shell with attachments := as₁ } }
      { m₂ with shell := { m₂.shell with attachments := as₂ } } := by
  obtain ⟨ρ, rfl, hρ⟩ := h
  exact ⟨{ ρ with attachments := as₁ }, rfl, { hρ with }⟩

/-! ### Answers to commands -/

lemma host_changeDirectory (m : Machine) (dir : Bytes) :
    (m.changeDirectory dir).2.host = (m.request (.stat (m.resolve dir))).2.host := by
  rw [Machine.changeDirectory]
  dsimp only
  split
  · rename_i heq
    rw [heq]
  · rename_i heq
    rw [heq]
    split <;> rfl
  · rename_i heq
    rw [heq]

lemma Quiet.of_requests {m m' : Machine} (h : d.Quiet m')
    (heq : m'.host.requests = m.host.requests) : d.Quiet m :=
  fun new hnew => h new (heq.trans hnew)

lemma Twin.changeDirectory (h : d.Twin part m₁ m₂) {dir : Bytes}
    (hquiet : d.Quiet (m₂.changeDirectory dir).2) :
    (m₁.changeDirectory dir).1 = (m₂.changeDirectory dir).1 ∧
      d.Twin part (m₁.changeDirectory dir).2 (m₂.changeDirectory dir).2 := by
  have hpath : m₁.resolve dir = m₂.resolve dir := by
    obtain ⟨ρ, rfl, -⟩ := h
    rfl
  have hrequest := hquiet.of_requests
    (congrArg (fun h : Host => h.requests) (host_changeDirectory m₂ dir))
  obtain ⟨hanswer, htwin, -⟩ := h.request (.stat (m₂.resolve dir)) hrequest
  rw [Machine.changeDirectory, Machine.changeDirectory, hpath]
  dsimp only
  rcases h₁ : m₁.request (.stat (m₂.resolve dir)) with ⟨answer, n₁⟩
  rcases h₂ : m₂.request (.stat (m₂.resolve dir)) with ⟨answer', n₂⟩
  rw [h₁, h₂] at hanswer htwin
  obtain rfl : answer = answer' := hanswer
  cases answer with
  | error f => exact ⟨rfl, htwin⟩
  | ok answer =>
    cases answer with
    | info name node =>
      dsimp only
      split
      · exact ⟨rfl, htwin.update (f := fun m =>
          { m with shell := { m.shell with directory := m₂.resolve dir } }) (fun _ => rfl) rfl⟩
      · exact ⟨rfl, htwin⟩
    | done => exact ⟨rfl, htwin⟩
    | handle f => exact ⟨rfl, htwin⟩
    | linkInfo name node itself => exact ⟨rfl, htwin⟩
    | link name => exact ⟨rfl, htwin⟩

/-- A plain query is answered alike. -/
lemma Twin.answer (h : d.Twin part m₁ m₂) (hpart : part.IsActive) {q : Query} (hq : q.IsPlain)
    (hquiet : d.Quiet (m₂.answer q).2) :
    (m₁.answer q).1 = (m₂.answer q).1 ∧ d.Twin part (m₁.answer q).2 (m₂.answer q).2 := by
  cases q with
  | write o text => exact ⟨rfl, h.write hpart o text⟩
  | readAll =>
    show (m₁.readAll m₁.shell.streams.input).1 = _ ∧
      d.Twin part (m₁.readAll m₁.shell.streams.input).2 _
    rw [h.streams]
    exact h.readAll h.sound.1
  | writeDescriptor fd text => exact hq.elim
  | changeDirectory dir => exact h.changeDirectory hquiet
  | setEnvironment name value => exact h.setVariable name value
  | unsetEnvironment name =>
    obtain ⟨ρ, rfl, hρ⟩ := h
    exact ⟨rfl, ρ, rfl, hρ⟩
  | record e => exact ⟨rfl, h.record e⟩
  | resume name => exact h.resume name
  | setPolicy policy => exact ⟨rfl, h.modifyScope _⟩
  | setTimeout timeout => exact ⟨rfl, h.modifyScope _⟩
  | setErrored errored => exact ⟨rfl, h.setErrored errored⟩
  | _ =>
    obtain ⟨ρ, rfl, hρ⟩ := h
    exact ⟨rfl, ρ, rfl, hρ⟩

/-! ### Diagnostics -/

lemma Twin.report (h : d.Twin part m₁ m₂) (location : Location) (message : Bytes) :
    d.Twin part (Interpreter.report location message m₁)
      (Interpreter.report location message m₂) := by
  have hcolored : m₁.shell.colored = m₂.shell.colored := by
    obtain ⟨ρ, rfl, -⟩ := h
    rfl
  have hpieces : ∀ (ts : List Bytes) {n₁ n₂ : Machine}, d.Twin part n₁ n₂ →
      d.Twin part (ts.foldl (fun m t => m.write .error t) n₁)
        (ts.foldl (fun m t => m.write .error t) n₂) := by
    intro ts
    induction ts with
    | nil => exact fun hn => hn
    | cons t ts ih => exact fun hn => ih (hn.complain t)
  rw [Interpreter.report, Interpreter.report, hcolored]
  split
  · exact h.complain _
  · exact (hpieces _ h).complain _

lemma Twin.fail (h : d.Twin part m₁ m₂) (location : Location) (message : Bytes) :
    d.Twin part (Interpreter.fail location message m₁) (Interpreter.fail location message m₂) :=
  (h.report location message).setErrored true

/-! ### Leading streams -/

lemma get?_leadAll (s : Streams Endpoint) (fd : Nat) :
    (d.leadAll part s).get? fd = (s.get? fd).map (d.lead part fd) := by
  match fd with
  | 0 => rfl
  | 1 => rfl
  | 2 => rfl
  | n + 3 => rfl

lemma set_leadAll (s : Streams Endpoint) (fd : Nat) (e : Endpoint) :
    (d.leadAll part s).set fd (d.lead part fd e) = d.leadAll part (s.set fd e) := by
  match fd with
  | 0 => rfl
  | 1 => rfl
  | 2 => rfl
  | n + 3 => rfl

lemma SoundAll.set {s : Streams Endpoint} (h : d.SoundAll s) (fd : Int) {e : Endpoint}
    (he : d.Sound e) : d.SoundAll (s.set fd e) := by
  intro fd' e' he'
  have hor : e' = e ∨ s.get? fd' = some e' := by
    rw [Streams.set.eq_def] at he'
    rw [Streams.get?.eq_def] at he' ⊢
    split at he'
    · split at he' <;> simp_all
    · split at he' <;> simp_all
    · split at he' <;> simp_all
    · cases he'
  rcases hor with rfl | he'
  · exact he
  · exact h fd' e' he'

/-! ### Targets of redirections -/

/-- A redirection in the diverted machine. -/
def leadAttachment (d : Diversion) (part : Part) (a : Attachment) : Attachment :=
  { a with handle := a.handle.map d.shift, saved := a.saved.map (d.lead part a.redirection.fd) }

/-- The redirections of a line in the diverted machine. -/
def leadRedirects (d : Diversion) (part : Part) (rs : Redirects) : Redirects :=
  rs.map (d.leadAttachment part)

/-- The redirection has nothing to do with the file itself. -/
structure SoundAttachment (d : Diversion) (a : Attachment) : Prop where
  handle : ∀ i, a.handle = some i → i ∉ d.stale
  saved : ∀ e, a.saved = some e → d.Sound e

/-- No redirection has to do with the file itself. -/
def SoundRedirects (d : Diversion) (rs : Redirects) : Prop := ∀ a ∈ rs, d.SoundAttachment a

variable {rs : Redirects}

/-- Leading streams to open targets. -/
lemma activate_lead (rs : Redirects) (s : Streams Endpoint) :
    Redirects.activate (d.leadRedirects part rs) (d.leadAll part s) =
      (d.leadRedirects part (Redirects.activate rs s).1,
        d.leadAll part (Redirects.activate rs s).2) := by
  induction rs generalizing s with
  | nil => rfl
  | cons a rs ih =>
    show Redirects.activate (d.leadAttachment part a :: d.leadRedirects part rs) _ = _
    obtain ⟨r, handle, saved⟩ := a
    simp only [Redirects.activate, leadAttachment, get?_leadAll]
    cases handle with
    | none =>
      simp only [Option.map_none, ih]
      rfl
    | some i =>
      cases saved with
      | some old =>
        simp only [Option.map_some, ih]
        rfl
      | none =>
        cases hold : s.get? r.fd with
        | none =>
          simp only [Option.map_some, Option.map_none, ih]
          rfl
        | some old =>
          have hset : (d.leadAll part s).set r.fd (.file (d.shift i)) =
              d.leadAll part (s.set r.fd (.file i)) := set_leadAll s r.fd (.file i)
          simp only [Option.map_some, Option.map_none, hset, ih]
          rfl

lemma sound_activate {s : Streams Endpoint} (hrs : d.SoundRedirects rs) (hs : d.SoundAll s) :
    d.SoundRedirects (Redirects.activate rs s).1 ∧ d.SoundAll (Redirects.activate rs s).2 := by
  induction rs generalizing s with
  | nil => exact ⟨hrs, hs⟩
  | cons a rs ih =>
    obtain ⟨ha, hrs⟩ := List.forall_mem_cons.1 hrs
    rw [Redirects.activate]
    split
    · rename_i i old hhandle hsaved hold
      have htarget : d.Sound (.file i) := by
        rintro j hj heq
        cases heq
        exact ha.handle i hhandle hj
      obtain ⟨hrs', hs'⟩ := ih hrs (hs.set a.redirection.fd htarget)
      refine ⟨List.forall_mem_cons.2 ⟨⟨ha.handle, fun e he => ?_⟩, hrs'⟩, hs'⟩
      obtain rfl := Option.some.inj he
      exact hs _ _ hold
    · obtain ⟨hrs', hs'⟩ := ih hrs hs
      exact ⟨List.forall_mem_cons.2 ⟨ha, hrs'⟩, hs'⟩

/-- Leading streams back. -/
lemma restore_lead (rs : Redirects) (s : Streams Endpoint) :
    Redirects.restore (d.leadRedirects part rs) (d.leadAll part s) =
      (d.leadRedirects part (Redirects.restore rs s).1,
        d.leadAll part (Redirects.restore rs s).2) := by
  induction rs generalizing s with
  | nil => rfl
  | cons a rs ih =>
    show Redirects.restore (d.leadAttachment part a :: d.leadRedirects part rs) _ = _
    obtain ⟨r, handle, saved⟩ := a
    cases saved with
    | none =>
      simp only [Redirects.restore, leadAttachment, Option.map_none, ih]
      rfl
    | some old =>
      simp only [Redirects.restore, leadAttachment, Option.map_some, set_leadAll, ih]
      rfl

lemma sound_restore {s : Streams Endpoint} (hrs : d.SoundRedirects rs) (hs : d.SoundAll s) :
    d.SoundRedirects (Redirects.restore rs s).1 ∧ d.SoundAll (Redirects.restore rs s).2 := by
  induction rs generalizing s with
  | nil => exact ⟨hrs, hs⟩
  | cons a rs ih =>
    obtain ⟨ha, hrs⟩ := List.forall_mem_cons.1 hrs
    rw [Redirects.restore]
    split
    · rename_i old hold
      obtain ⟨hrs', hs'⟩ := ih hrs (hs.set a.redirection.fd (ha.saved old hold))
      exact ⟨List.forall_mem_cons.2 ⟨⟨ha.handle, fun e he => by cases he⟩, hrs'⟩, hs'⟩
    · obtain ⟨hrs', hs'⟩ := ih hrs hs
      exact ⟨List.forall_mem_cons.2 ⟨ha, hrs'⟩, hs'⟩

/-- The streams of the running shell are led elsewhere. -/
lemma Twin.setStreams (h : d.Twin part m₁ m₂) {s : Streams Endpoint} (hs : d.SoundAll s) :
    d.Twin part { m₁ with shell := { m₁.shell with streams := d.leadAll part s } }
      { m₂ with shell := { m₂.shell with streams := s } } := by
  obtain ⟨ρ, rfl, hρ⟩ := h
  exact ⟨ρ, rfl, { hρ with shell := ⟨hs, hρ.shell.typed⟩ }⟩

lemma Twin.soundAll (h : d.Twin part m₁ m₂) : d.SoundAll m₂.shell.streams := by
  obtain ⟨ρ, -, hρ⟩ := h
  exact hρ.shell.streams

lemma Twin.attach (h : d.Twin part m₁ m₂) (hrs : d.SoundRedirects rs) :
    (Redirects.attach (d.leadRedirects part rs) m₁).1 =
        d.leadRedirects part (Redirects.attach rs m₂).1 ∧
      d.Twin part (Redirects.attach (d.leadRedirects part rs) m₁).2 (Redirects.attach rs m₂).2 ∧
      d.SoundRedirects (Redirects.attach rs m₂).1 := by
  obtain ⟨hrs', hs⟩ := sound_activate hrs h.soundAll
  simp only [Redirects.attach, h.streams, activate_lead]
  exact ⟨trivial, h.setStreams hs, hrs'⟩

/-- Closing targets. -/
lemma Twin.close (h : d.Twin part m₁ m₂) (rs : Redirects) :
    (Redirects.close (d.leadRedirects part rs) m₁).1 = (Redirects.close rs m₂).1 ∧
      (Redirects.close (d.leadRedirects part rs) m₁).2.1 =
        d.leadRedirects part (Redirects.close rs m₂).2.1 ∧
      d.Twin part (Redirects.close (d.leadRedirects part rs) m₁).2.2
        (Redirects.close rs m₂).2.2 := by
  induction rs generalizing m₁ m₂ with
  | nil => exact ⟨rfl, rfl, h⟩
  | cons a rs ih =>
    obtain ⟨r, handle, saved⟩ := a
    show (Redirects.close (_ :: d.leadRedirects part rs) m₁).1 = _ ∧
      (Redirects.close (_ :: d.leadRedirects part rs) m₁).2.1 = _ ∧
      d.Twin part (Redirects.close (_ :: d.leadRedirects part rs) m₁).2.2 _
    cases handle with
    | none =>
      obtain ⟨hfaults, hclosed, htwin⟩ := ih h
      simp only [Redirects.close, leadAttachment, Option.map_none]
      exact ⟨hfaults, congrArg (_ :: ·) hclosed, htwin⟩
    | some i =>
      obtain ⟨hfault, hhandle⟩ := h.closeHandle i
      obtain ⟨hfaults, hclosed, htwin⟩ := ih hhandle
      simp only [Redirects.close, leadAttachment, Option.map_some, closeFile_eq, hfault]
      exact ⟨congrArg (_ ++ ·) hfaults, congrArg (_ :: ·) hclosed, htwin⟩

/-- Opening one target. -/
lemma Twin.openTarget (h : d.Twin part m₁ m₂) {a : Attachment} (ha : d.SoundAttachment a)
    {resolve : Bytes → Bytes} (hquiet : d.Quiet (Redirects.openTarget resolve a m₂).2) :
    (Redirects.openTarget resolve (d.leadAttachment part a) m₁).1 =
        (Redirects.openTarget resolve a m₂).1.map (d.leadAttachment part) ∧
      d.Twin part (Redirects.openTarget resolve (d.leadAttachment part a) m₁).2
        (Redirects.openTarget resolve a m₂).2 ∧
      ∀ b, (Redirects.openTarget resolve a m₂).1 = .ok b → d.SoundAttachment b := by
  obtain ⟨r, handle, saved⟩ := a
  cases handle with
  | some i =>
    refine ⟨rfl, h, fun b hb => ?_⟩
    obtain rfl := Except.ok.inj hb
    exact ha
  | none =>
    have hlead : d.leadAttachment part ⟨r, none, saved⟩ =
        ⟨r, none, saved.map (d.lead part r.fd)⟩ := rfl
    rw [hlead]
    by_cases hname : r.name = []
    · rw [Redirects.openTarget_nameless hname, Redirects.openTarget_nameless hname]
      exact ⟨rfl, h, fun b hb => by cases hb⟩
    · rw [Redirects.openTarget_named hname] at hquiet
      rw [Redirects.openTarget_named hname, Redirects.openTarget_named hname]
      have hopen : d.Quiet (m₂.openFile (.openFile (resolve r.name) r.mode.flags)).2 := by
        split at hquiet
        · rename_i heq
          rwa [heq]
        · rename_i heq
          rwa [heq]
      obtain ⟨hanswer, htwin, hfresh⟩ := h.openFile (.target (resolve r.name) r.mode) hopen
      rcases h₁ : m₁.openFile (.openFile (resolve r.name) r.mode.flags) with ⟨answer, n₁⟩
      rcases h₂ : m₂.openFile (.openFile (resolve r.name) r.mode.flags) with ⟨answer', n₂⟩
      rw [h₁, h₂] at hanswer htwin
      rw [h₂] at hfresh
      obtain rfl : answer = answer'.map d.shift := hanswer
      cases answer' with
      | error f => exact ⟨rfl, htwin, fun b hb => by cases hb⟩
      | ok i =>
        refine ⟨rfl, htwin, fun b hb => ?_⟩
        obtain rfl := Except.ok.inj hb
        refine ⟨fun j hj => ?_, ha.saved⟩
        obtain rfl := Option.some.inj hj
        exact hfresh i rfl

/-- Opening targets up to the first that fails. -/
lemma Twin.openTargets (h : d.Twin part m₁ m₂) (hrs : d.SoundRedirects rs)
    {resolve : Bytes → Bytes} (hquiet : d.Quiet (Redirects.openTargets resolve rs m₂).2.2) :
    (Redirects.openTargets resolve (d.leadRedirects part rs) m₁).1 =
        (Redirects.openTargets resolve rs m₂).1 ∧
      (Redirects.openTargets resolve (d.leadRedirects part rs) m₁).2.1 =
        d.leadRedirects part (Redirects.openTargets resolve rs m₂).2.1 ∧
      d.Twin part (Redirects.openTargets resolve (d.leadRedirects part rs) m₁).2.2
        (Redirects.openTargets resolve rs m₂).2.2 ∧
      d.SoundRedirects (Redirects.openTargets resolve rs m₂).2.1 := by
  induction rs generalizing m₁ m₂ with
  | nil => exact ⟨rfl, rfl, h, hrs⟩
  | cons a rs ih =>
    obtain ⟨ha, hrs⟩ := List.forall_mem_cons.1 hrs
    show (Redirects.openTargets resolve (_ :: d.leadRedirects part rs) m₁).1 = _ ∧
      (Redirects.openTargets resolve (_ :: d.leadRedirects part rs) m₁).2.1 = _ ∧
      d.Twin part (Redirects.openTargets resolve (_ :: d.leadRedirects part rs) m₁).2.2 _ ∧ _
    have hfirst : d.Quiet (Redirects.openTarget resolve a m₂).2 := by
      rw [Redirects.openTargets] at hquiet
      split at hquiet
      · rename_i heq
        rwa [heq]
      · rename_i heq
        rw [heq]
        exact hquiet.of_evolves (Evolves.inputOutput.openTargets _ _ _)
    obtain ⟨hanswer, htwin, hfresh⟩ := h.openTarget ha hfirst
    rw [Redirects.openTargets] at hquiet
    rw [Redirects.openTargets, Redirects.openTargets]
    rcases h₁ : Redirects.openTarget resolve (d.leadAttachment part a) m₁ with ⟨answer, n₁⟩
    rcases h₂ : Redirects.openTarget resolve a m₂ with ⟨answer', n₂⟩
    rw [h₁, h₂] at hanswer htwin
    rw [h₂] at hfresh hquiet
    obtain rfl : answer = answer'.map (d.leadAttachment part) := hanswer
    cases answer' with
    | error f => exact ⟨rfl, rfl, htwin, List.forall_mem_cons.2 ⟨ha, hrs⟩⟩
    | ok b =>
      obtain ⟨hfault, hopened, hrest, hsound⟩ := ih htwin hrs hquiet
      exact ⟨hfault, congrArg (_ :: ·) hopened, hrest,
        List.forall_mem_cons.2 ⟨hfresh b rfl, hsound⟩⟩

/-- Opening all targets, or closing those that are open. -/
lemma Twin.openAll (h : d.Twin part m₁ m₂) (hrs : d.SoundRedirects rs)
    {resolve : Bytes → Bytes} (hquiet : d.Quiet (Redirects.openAll resolve rs m₂).2.2) :
    (Redirects.openAll resolve (d.leadRedirects part rs) m₁).1 =
        (Redirects.openAll resolve rs m₂).1 ∧
      (Redirects.openAll resolve (d.leadRedirects part rs) m₁).2.1 =
        d.leadRedirects part (Redirects.openAll resolve rs m₂).2.1 ∧
      d.Twin part (Redirects.openAll resolve (d.leadRedirects part rs) m₁).2.2
        (Redirects.openAll resolve rs m₂).2.2 ∧
      ((Redirects.openAll resolve rs m₂).1 = none →
        d.SoundRedirects (Redirects.openAll resolve rs m₂).2.1) := by
  have hopen : d.Quiet (Redirects.openTargets resolve rs m₂).2.2 := by
    rw [Redirects.openAll] at hquiet
    split at hquiet
    · rename_i heq
      rwa [heq]
    · rename_i heq
      rw [heq]
      exact hquiet.of_evolves (Evolves.inputOutput.close _ _)
  obtain ⟨hfault, hopened, htwin, hsound⟩ := h.openTargets hrs hopen
  rw [Redirects.openAll, Redirects.openAll]
  rcases h₁ : Redirects.openTargets resolve (d.leadRedirects part rs) m₁ with ⟨fault, rs₁, n₁⟩
  rcases h₂ : Redirects.openTargets resolve rs m₂ with ⟨fault', rs₂, n₂⟩
  rw [h₁, h₂] at hfault hopened htwin
  rw [h₂] at hsound
  obtain rfl : fault = fault' := hfault
  obtain rfl : rs₁ = d.leadRedirects part rs₂ := hopened
  cases fault with
  | none => exact ⟨rfl, rfl, htwin, fun _ => hsound⟩
  | some f =>
    obtain ⟨-, hclosed, hclose⟩ := htwin.close rs₂
    exact ⟨rfl, hclosed, hclose, fun hnone => by cases hnone⟩

end Diversion

end ConsoleShell
