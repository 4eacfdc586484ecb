/-
A line with the diversion of its output among its redirections.

In the diverted machine a line has one redirection more, which stands between those of lower and
those of higher descriptors.  Its target is opened, the output is led there while the command of
the line runs, and then it is led back and the target is closed; the other redirections are
handled as in the other machine.  The part that the shell plays changes on the way: it waits for
the diversion, has its output diverted, waits again, and has finished.
-/
import ConsoleShell.Proofs.Redirects.Activation
import ConsoleShell.Proofs.Shell.DiversionRuns

namespace ConsoleShell

/-! ### Redirections one after another -/

namespace Redirects

lemma activate_append (as bs : Redirects) (s : Streams Endpoint) :
    activate (as ++ bs) s =
      ((activate as s).1 ++ (activate bs (activate as s).2).1,
        (activate bs (activate as s).2).2) := by
  induction as generalizing s with
  | nil => rfl
  | cons a as ih =>
    rw [List.cons_append, activate, activate]
    dsimp only
    split
    · rw [ih]
      rfl
    · rw [ih]
      rfl

lemma restore_append (as bs : Redirects) (s : Streams Endpoint) :
    restore (as ++ bs) s =
      ((restore as s).1 ++ (restore bs (restore as s).2).1, (restore bs (restore as s).2).2) := by
  induction as generalizing s with
  | nil => rfl
  | cons a as ih =>
    rw [List.cons_append, restore, restore]
    split
    · rw [ih]
      rfl
    · rw [ih]
      rfl

lemma close_append (as bs : Redirects) (m : Machine) :
    close (as ++ bs) m =
      ((close as m).1 ++ (close bs (close as m).2.2).1,
        (close as m).2.1 ++ (close bs (close as m).2.2).2.1, (close bs (close as m).2.2).2.2) := by
  induction as generalizing m with
  | nil => rfl
  | cons a as ih =>
    rw [List.cons_append, close, close]
    split
    · rw [ih]
      rfl
    · dsimp only
      rw [ih]
      simp only [List.append_assoc]
      rfl

/-- No redirection is one of the output. -/
def SparesOutput (rs : Redirects) : Prop := ∀ a ∈ rs, a.redirection.fd ≠ 1

variable {rs : Redirects}

lemma SparesOutput.of_fds {rs' : Redirects} (h : SparesOutput rs) (heq : rs'.fds = rs.fds) :
    SparesOutput rs' := by
  intro a ha hfd
  have hmem : a.redirection.fd ∈ rs.fds := heq ▸ List.mem_map.2 ⟨a, ha, rfl⟩
  obtain ⟨b, hb, hba⟩ := List.mem_map.1 hmem
  exact h b hb (hba.trans hfd)

lemma output_set {s : Streams Endpoint} {fd : Nat} (hfd : fd ≠ 1) (e : Endpoint) :
    (s.set fd e).output = s.output := by
  match fd, hfd with
  | 0, _ => rfl
  | 2, _ => rfl
  | n + 3, _ => rfl

/-- Redirections of other descriptors leave the output where it leads. -/
lemma SparesOutput.output_activate (h : SparesOutput rs) (s : Streams Endpoint) :
    (activate rs s).2.output = s.output := by
  induction rs generalizing s with
  | nil => rfl
  | cons a rs ih =>
    obtain ⟨ha, hrs⟩ := List.forall_mem_cons.1 h
    rw [activate]
    dsimp only
    split
    · exact (ih hrs _).trans (output_set ha _)
    · exact ih hrs s

lemma SparesOutput.output_restore (h : SparesOutput rs) (s : Streams Endpoint) :
    (restore rs s).2.output = s.output := by
  induction rs generalizing s with
  | nil => rfl
  | cons a rs ih =>
    obtain ⟨ha, hrs⟩ := List.forall_mem_cons.1 h
    rw [restore]
    split
    · exact (ih hrs _).trans (output_set ha _)
    · exact ih hrs s

end Redirects

namespace Diversion

open Machine Interpreter Redirects

variable {d : Diversion} {part part' : Part} {m₁ m₂ : Machine} {as bs : Redirects}
  {name : Bytes}

/-! ### The diversion among other redirections -/

/-- The redirection of the output to the file itself, and what it has replaced. -/
def ownAttachment (d : Diversion) (name : Bytes) (saved : Option Endpoint) : Attachment where
  redirection := ⟨1, .write, name⟩
  handle := d.handle
  saved := saved

/-- The redirections of a line with that to the file itself among them. -/
def withOwn (d : Diversion) (name : Bytes) (saved : Option Endpoint) (as bs : Redirects) :
    Redirects :=
  d.leadRedirects .waiting as ++ d.ownAttachment name saved :: d.leadRedirects .waiting bs

/-- Where other streams lead does not depend on the part. -/
lemma leadRedirects_of_sparesOutput (h : SparesOutput as) (part part' : Part) :
    d.leadRedirects part as = d.leadRedirects part' as := by
  refine List.map_congr_left fun a ha => ?_
  have hlead : d.lead part a.redirection.fd = d.lead part' a.redirection.fd := by
    funext e
    cases e with
    | null => rfl
    | file i => rfl
    | session => rw [lead_session fun hfd => h a ha hfd.2, lead_session fun hfd => h a ha hfd.2]
  rw [leadAttachment, leadAttachment, hlead]

lemma leadAll_waiting_set {s : Streams Endpoint} (hout : s.output = .session) :
    (d.leadAll .waiting s).set 1 (.file d.handle) = d.leadAll .diverted s ∧
      (d.leadAll .diverted s).set 1 .session = d.leadAll .waiting s := by
  obtain ⟨input, output, error⟩ := s
  obtain rfl : output = .session := hout
  have hinput : d.lead .waiting 0 input = d.lead .diverted 0 input := by
    cases input <;> rfl
  have herror : d.lead .waiting 2 error = d.lead .diverted 2 error := by
    cases error <;> rfl
  simp only [leadAll, hinput, herror]
  exact ⟨rfl, rfl⟩

/-- Leading the output to the file on the way. -/
lemma activate_withOwn (has : SparesOutput as) (hbs : SparesOutput bs) {s : Streams Endpoint}
    (hout : s.output = .session) :
    activate (d.withOwn name none as bs) (d.leadAll .waiting s) =
      (d.withOwn name (some .session) (activate as s).1 (activate bs (activate as s).2).1,
        d.leadAll .diverted (activate bs (activate as s).2).2) := by
  have hout' := (has.output_activate s).trans hout
  obtain ⟨hset, -⟩ := leadAll_waiting_set (d := d) hout'
  have hlead : (d.leadAll .waiting (activate as s).2).output = .session := by
    rw [leadAll, hout']
    rfl
  have hown : activate (d.ownAttachment name none :: d.leadRedirects .waiting bs)
      (d.leadAll .waiting (activate as s).2) =
        (d.ownAttachment name (some .session) ::
          d.leadRedirects .waiting (activate bs (activate as s).2).1,
          d.leadAll .diverted (activate bs (activate as s).2).2) := by
    rw [activate]
    simp only [ownAttachment, Nat.cast_one, Streams.get?, hlead, hset]
    rw [leadRedirects_of_sparesOutput hbs .waiting .diverted, activate_lead,
      leadRedirects_of_sparesOutput (hbs.of_fds (fds_activate _ _)) .diverted .waiting]
  rw [withOwn, activate_append, activate_lead, hown]
  rfl

/-- Leading the output back on the way. -/
lemma restore_withOwn (has : SparesOutput as) {s : Streams Endpoint} (hout : s.output = .session) :
    restore (d.withOwn name (some .session) as bs) (d.leadAll .diverted s) =
      (d.withOwn name none (restore as s).1 (restore bs (restore as s).2).1,
        d.leadAll .waiting (restore bs (restore as s).2).2) := by
  obtain ⟨-, hset⟩ := leadAll_waiting_set (d := d) ((has.output_restore s).trans hout)
  have hown : restore (d.ownAttachment name (some .session) :: d.leadRedirects .waiting bs)
      (d.leadAll .diverted (restore as s).2) =
        (d.ownAttachment name none :: d.leadRedirects .waiting (restore bs (restore as s).2).1,
          d.leadAll .waiting (restore bs (restore as s).2).2) := by
    rw [restore]
    simp only [ownAttachment, Nat.cast_one, hset, restore_lead]
  rw [withOwn, restore_append, leadRedirects_of_sparesOutput has .waiting .diverted, restore_lead,
    hown, leadRedirects_of_sparesOutput (has.of_fds (fds_restore _ _)) .diverted .waiting]
  rfl

/-- Where the output was not led to the file, it is not led back. -/
lemma restore_withOwn_unsaved (as bs : Redirects) (s : Streams Endpoint) :
    restore (d.withOwn name none as bs) (d.leadAll .waiting s) =
      (d.withOwn name none (restore as s).1 (restore bs (restore as s).2).1,
        d.leadAll .waiting (restore bs (restore as s).2).2) := by
  rw [withOwn, restore_append, restore_lead, restore]
  simp only [ownAttachment, restore_lead]
  rfl

/-- How far a line has got with its diversion. -/
inductive Stage : Part → Option Endpoint → Prop
  | opened : Stage .waiting none
  | led : Stage .diverted (some .session)

/-- What is known of both machines between opening and closing the targets of a line. -/
structure Stays (d : Diversion) (part : Part) (saved : Option Endpoint) (as bs : Redirects)
    (m₁ m₂ : Machine) : Prop where
  stage : Stage part saved
  twin : d.Twin part m₁ m₂
  sound : d.SoundRedirects (as ++ bs)
  before : SparesOutput as
  after : SparesOutput bs
  output : m₂.shell.streams.output = .session

/-! ### Changes of the part -/

lemma belongs_iff {id : Nat} (h : part ≠ .bystander) : part.Belongs d id ↔ id = d.shell := by
  cases part with
  | bystander => exact absurd rfl h
  | waiting => exact Iff.rfl
  | diverted => exact Iff.rfl
  | finished => exact Iff.rfl

/-- The streams of the shell are led elsewhere, and it plays another part from then on. -/
lemma Twin.retarget (h : d.Twin part m₁ m₂) {s : Streams Endpoint} (hs : d.SoundAll s)
    (hown : ∀ ts, d.own part' ts = d.own part ts) (hshell : part ≠ .bystander)
    (hshell' : part' ≠ .bystander) :
    d.Twin part' { m₁ with shell := { m₁.shell with streams := d.leadAll part' s } }
      { m₂ with shell := { m₂.shell with streams := s } } := by
  obtain ⟨ρ, rfl, hρ⟩ := h
  refine ⟨ρ, ?_, ?_⟩
  · simp only [mirrored, hown]
  · exact
      { hρ with
        shell := ⟨hs, hρ.shell.typed⟩
        running := (belongs_iff hshell').2 ((belongs_iff hshell).1 hρ.running) }

/-- Closing the file itself. -/
lemma Twin.finish (h : d.Twin .waiting m₁ m₂) :
    (m₁.closeHandle d.handle).1 = none ∧ d.Twin .finished (m₁.closeHandle d.handle).2 m₂ := by
  obtain ⟨ρ, rfl, hρ⟩ := h
  have hle : d.handle ≤ m₂.host.handles.length := hρ.handles
  have hopen : (m₂.mirrored d .waiting ρ).host.handles[d.handle]? =
      some (d.own .waiting ρ.passed) := by
    show (m₂.host.handles.insertIdx d.handle (d.own .waiting ρ.passed))[d.handle]? = _
    rw [List.getElem?_insertIdx_self, if_pos hle]
  have hfailing : (m₂.mirrored d .waiting ρ).host.failing.contains d.file = false := by
    have hnot : d.file ∉ m₂.host.failing := hρ.failing
    show m₂.host.failing.contains d.file = false
    simpa using hnot
  have hpath : (d.own .waiting ρ.passed).path = d.file := rfl
  rw [Machine.closeHandle, hopen]
  simp only [hpath, hfailing, Bool.false_eq_true, if_false]
  refine ⟨rfl, ρ, ?_, { hρ with }⟩
  have hleads : ∀ s, d.leadAll .waiting s = d.leadAll .finished s := by
    intro s
    obtain ⟨input, output, error⟩ := s
    cases input <;> cases output <;> cases error <;> rfl
  simp only [Machine.setFile, mirrored, set_own, hleads]
  rfl

/-- Closing the targets of a line, the file itself among them. -/
lemma Twin.closeWithOwn (h : d.Twin .waiting m₁ m₂) (name : Bytes) (as : Redirects)
    (hbs : SparesOutput bs) :
    (Redirects.close (d.withOwn name none as bs) m₁).1 = (Redirects.close (as ++ bs) m₂).1 ∧
      d.Twin .finished (Redirects.close (d.withOwn name none as bs) m₁).2.2
        (Redirects.close (as ++ bs) m₂).2.2 := by
  obtain ⟨hfaults, -, hbefore⟩ := h.close as
  obtain ⟨hown, hfinished⟩ := hbefore.finish
  obtain ⟨hfaults', -, hafter⟩ := hfinished.close bs
  rw [leadRedirects_of_sparesOutput hbs .finished .waiting] at hfaults' hafter
  rw [withOwn, close_append, close_append, Redirects.close]
  simp only [ownAttachment, Machine.closeFile_eq, hown, Option.map_none, Option.toList_none,
    List.nil_append]
  exact ⟨congrArg₂ (· ++ ·) hfaults hfaults', hafter⟩

/-- Leading the streams of a line back and closing its targets. -/
lemma Stays.detachWithOwn {saved : Option Endpoint} (h : d.Stays part saved as bs m₁ m₂)
    (name : Bytes) (location : Location) :
    d.Twin .finished (Interpreter.detach (d.withOwn name saved as bs) location m₁)
      (Interpreter.detach (as ++ bs) location m₂) := by
  obtain ⟨hstage, h, hrs, has, hbs, hout⟩ := h
  obtain ⟨-, hs⟩ := sound_restore hrs h.soundAll
  have hrestored : (restore (d.withOwn name saved as bs) m₁.shell.streams).1 =
      d.withOwn name none (restore as m₂.shell.streams).1
        (restore bs (restore as m₂.shell.streams).2).1 ∧
      d.Twin .waiting { m₁ with shell := { m₁.shell with
        streams := (restore (d.withOwn name saved as bs) m₁.shell.streams).2 } }
        { m₂ with shell := { m₂.shell with
          streams := (restore (as ++ bs) m₂.shell.streams).2 } } := by
    rw [h.streams]
    cases hstage with
    | opened =>
      rw [restore_withOwn_unsaved, restore_append]
      rw [restore_append] at hs
      exact ⟨rfl, h.setStreams hs⟩
    | led =>
      rw [restore_withOwn has hout, restore_append]
      rw [restore_append] at hs
      exact ⟨rfl, h.retarget hs (fun _ => rfl) (by decide) (by decide)⟩
  obtain ⟨hwithOwn, htwin⟩ := hrestored
  have hclosed := htwin.closeWithOwn name (restore as m₂.shell.streams).1
    (hbs.of_fds (fds_restore bs (restore as m₂.shell.streams).2))
  have happend : (restore (as ++ bs) m₂.shell.streams).1 =
      (restore as m₂.shell.streams).1 ++ (restore bs (restore as m₂.shell.streams).2).1 := by
    rw [restore_append]
  rw [← hwithOwn, ← happend] at hclosed
  obtain ⟨hfaults, hfinished⟩ := hclosed
  have hdetach : ∀ (rs : Redirects) (m : Machine), rs.detach m = Redirects.close
      (restore rs m.shell.streams).1 ({ m with shell := { m.shell with
        streams := (restore rs m.shell.streams).2 } } : Machine) := fun _ _ => rfl
  rw [Interpreter.detach, Interpreter.detach, hdetach, hdetach]
  rcases h₁ : Redirects.close (restore (d.withOwn name saved as bs) m₁.shell.streams).1
    ({ m₁ with shell := { m₁.shell with
      streams := (restore (d.withOwn name saved as bs) m₁.shell.streams).2 } } : Machine) with
    ⟨faults, rs₁, n₁⟩
  rcases h₂ : Redirects.close (restore (as ++ bs) m₂.shell.streams).1
    ({ m₂ with shell := { m₂.shell with
      streams := (restore (as ++ bs) m₂.shell.streams).2 } } : Machine) with ⟨faults', rs₂, n₂⟩
  rw [h₁, h₂] at hfaults hfinished
  obtain rfl : faults = faults' := hfaults
  cases faults with
  | nil => exact hfinished
  | cons f fs => exact hfinished.report _ _

/-! ### Calling the command of the line -/

/-- Leading the streams to the targets of a line, the output to the file itself. -/
lemma Stays.attachWithOwn (h : d.Stays .waiting none as bs m₁ m₂) (name : Bytes) :
    (Redirects.attach (d.withOwn name none as bs) m₁).1 =
        d.withOwn name (some .session) (activate as m₂.shell.streams).1
          (activate bs (activate as m₂.shell.streams).2).1 ∧
      d.Twin .diverted (Redirects.attach (d.withOwn name none as bs) m₁).2
        (Redirects.attach (as ++ bs) m₂).2 ∧
      (Redirects.attach (as ++ bs) m₂).2.shell.streams.output = .session := by
  obtain ⟨-, h, hrs, has, hbs, hout⟩ := h
  obtain ⟨-, hs⟩ := sound_activate hrs h.soundAll
  rw [activate_append] at hs
  simp only [Redirects.attach, h.streams, activate_withOwn has hbs hout, activate_append]
  exact ⟨trivial, h.retarget hs (fun _ => rfl) (by decide) (by decide),
    (hbs.output_activate _).trans ((has.output_activate _).trans hout)⟩

/-- The command of a line whose targets are open is called in both machines. -/
lemma Stays.callWithOwn (h : d.Stays .waiting none as bs m₁ m₂) (name : Bytes) {depth : Nat}
    {c : Command CommandBody} (hc : CommandBody.Plain c.body) {args : Arguments}
    {words : List Bytes} {location : Location} {rs₂ : Redirects} {m₂' : Machine}
    (hrun : callAttached (invoke depth) c args words (as ++ bs) location m₂ = some (rs₂, m₂'))
    (hquiet : d.Quiet m₂') :
    ∃ saved as' bs' m₁', rs₂ = as' ++ bs' ∧
      callAttached (invoke depth) c args words (d.withOwn name none as bs) location m₁ =
        some (d.withOwn name saved as' bs', m₁') ∧ d.Stays .diverted saved as' bs' m₁' m₂' := by
  rw [callAttached_apply] at hrun
  obtain ⟨⟨u, n₂⟩, hcall, heq⟩ := Option.map_eq_some_iff.1 hrun
  obtain ⟨rfl, rfl⟩ := Prod.mk.inj heq
  obtain ⟨hattached, hattach, hsession⟩ := h.attachWithOwn name
  have hbefore : d.Twin .diverted (attached (d.withOwn name none as bs) m₁)
      (attached (as ++ bs) m₂) := hattach.setAttachments _ _
  obtain ⟨n₁, hcall₁, -, hafter⟩ := (alike_callMarked (g := True) (faithful_invoke d depth)
    (.inr rfl) (fun _ => hc) args words location).runs trivial hbefore hcall
      (hquiet.of_requests rfl)
  have hkeeps := maintains_callMarked (restoring_invoke depth) c args words location _ _ _ hcall
  have hsound := (sound_activate h.sound h.twin.soundAll).1
  rw [activate_append] at hsound
  refine ⟨_, _, _, reattached m₁.shell.attachments n₁, ?_, ?_,
    { stage := .led
      twin := hafter.setAttachments _ _
      sound := hsound
      before := h.before.of_fds (fds_activate _ _)
      after := h.after.of_fds (fds_activate _ _)
      output := ?_ }⟩
  · simp only [Redirects.attach, activate_append]
  · rw [callAttached_apply, hcall₁, hattached]
    rfl
  · show n₂.shell.streams.output = .session
    rw [hkeeps.streams]
    exact hsession

/-- A line whose targets are open is dispatched in both machines. -/
lemma Stays.dispatchWithOwn (h : d.Stays .waiting none as bs m₁ m₂) (name : Bytes) {depth : Nat}
    {words : List Bytes} (hwords : words ≠ []) {location : Location} {rs₂ : Redirects}
    {m₂' : Machine}
    (hrun : dispatchOpen (invoke depth) words (as ++ bs) location m₂ = some (rs₂, m₂'))
    (hquiet : d.Quiet m₂') :
    ∃ part saved as' bs' m₁', rs₂ = as' ++ bs' ∧
      dispatchOpen (invoke depth) words (d.withOwn name none as bs) location m₁ =
        some (d.withOwn name saved as' bs', m₁') ∧ d.Stays part saved as' bs' m₁' m₂' := by
  obtain ⟨word, words, rfl⟩ := List.exists_cons_of_ne_nil hwords
  have hstreams (m : Machine) := (keeps_setErrored true m).streams
  have herrored : d.Stays .waiting none as bs (m₁.setErrored true) (m₂.setErrored true) :=
    { h with twin := h.twin.setErrored true, output := by rw [hstreams, h.output] }
  -- a line without a command to call is only reported about
  have hreported : ∀ (message : Bytes) (e : Event), d.Stays .waiting none as bs
      ((Interpreter.report location message (m₁.setErrored true)).record e)
      ((Interpreter.report location message (m₂.setErrored true)).record e) := fun message e =>
    { herrored with
      twin := (herrored.twin.report location message).record e
      output := by
        rw [(keeps_record_report location message e (m₂.setErrored true)).streams]
        exact herrored.output }
  have htable : m₁.host.table = m₂.host.table :=
    h.twin.same (f := fun m => m.host.table) fun _ => rfl
  have hplain : CommandTable.Plain m₂.host.table := by
    obtain ⟨ρ, -, hρ⟩ := h.twin
    exact hρ.table
  rcases dispatchOpen_cases hrun with
    ⟨hfind, rfl, rfl⟩ | ⟨c, f, hfind, hbind, rfl, rfl⟩ | ⟨c, args, hfind, hbind, hcall⟩
  · exact ⟨_, _, as, bs, _, rfl, dispatchOpen_unknown _ (htable ▸ hfind) _ location,
      hreported _ _⟩
  · exact ⟨_, _, as, bs, _, rfl,
      dispatchOpen_rejected _ (htable ▸ hfind) (htable ▸ hbind) _ location, hreported _ _⟩
  · rw [dispatchOpen_apply _ (htable ▸ hfind) (htable ▸ hbind)]
    obtain ⟨saved, as', bs', m₁', hrs, hrun₁, hstays⟩ :=
      herrored.callWithOwn name (CommandTable.Plain.of_find hplain hfind) hcall hquiet
    exact ⟨_, saved, as', bs', m₁', hrs, hrun₁, hstays⟩

end Diversion

end ConsoleShell
