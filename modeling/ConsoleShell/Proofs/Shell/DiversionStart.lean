/-
When the output of a shell can be redirected to a file.

The output must lead to the session, the file must open, be emptied and close, and nothing else
may have to do with it: no stream leads to it, events are not written to it, and what is written
or recorded cancels nothing.  Then the machine that has opened the file is the other one with a
diversion that is still waiting.  The input of a line is opened before the file, which changes
nothing about this.
-/
import ConsoleShell.Proofs.Shell.DiversionLine

namespace ConsoleShell

/-! ### Opening files that are there to be opened -/

namespace FileStore

variable {s t : FileStore} {p : Bytes} {f : OpenFile}

/-- Opening for reading changes no file. -/
lemma perform_target_read (h : s.perform (.openFile p Mode.read.flags) = (.ok (.handle f), t)) :
    t = s ∧ f.path = s.key p := by
  simp only [perform, Mode.flags, FileStore.openFile] at h
  cases hfind : s.find? p with
  | none => simp [hfind] at h
  | some n =>
    simp only [hfind, Bool.false_and, Bool.false_eq_true, if_false, Bool.and_false,
      Bool.or_false] at h
    obtain ⟨hf, rfl⟩ := Prod.mk.inj h
    obtain rfl := FileAnswer.handle.inj (Except.ok.inj hf)
    exact ⟨rfl, rfl⟩

/-- A file that is opened to be emptied in a directory that is there is empty, and nothing else
has changed. -/
lemma perform_target_write (hs : s.Anchored) {d : Node}
    (hdir : s.find? (normalize (Path.directory (s.key p))) = some d) (hd : d.isDirectory = true)
    (h : s.perform (.openFile p Mode.write.flags) = (.ok (.handle f), t)) :
    f = { path := s.key p } ∧ ∃ n : Node, n.data = [] ∧ s.Overlaid (s.key p) n t := by
  simp only [perform, Mode.flags] at h
  split at h
  · rename_i t' position hopen
    obtain ⟨rfl, hoverlaid⟩ := Overlaid.of_openFile hs hdir hd hopen
    obtain ⟨hf, rfl⟩ := Prod.mk.inj h
    obtain rfl := FileAnswer.handle.inj (Except.ok.inj hf)
    refine ⟨?_, hoverlaid⟩
    cases s.medium <;> rfl
  · cases h

end FileStore

namespace Machine

variable {m : Machine} {p : Bytes} {mode : Mode} {f : OpenFile}

/-- What a guard allows is done as without a guard, and what is recorded is not a warning. -/
lemma outcome_target {a : FileAnswer} (h : (m.outcome (.openFile p mode.flags)).1 = .ok a) :
    m.outcome (.openFile p mode.flags) = m.host.store.perform (.openFile p mode.flags) ∧
      (m.trail (.openFile p mode.flags) = [] ∨ m.shell.guard ≠ .none ∧
        ∃ name, m.trail (.openFile p mode.flags) = [.fileAccess name p true]) := by
  cases hguard : m.shell.guard with
  | none =>
    simp only [outcome, trail, hguard]
    exact ⟨rfl, .inl trivial⟩
  | session readOnly =>
    simp only [outcome, hguard, AuditedStore.perform_eq, FileRequest.inquiries, Auditor.ask] at h
    simp only [outcome, trail, hguard, AuditedStore.perform_eq, FileRequest.inquiries, Auditor.ask]
    cases hasked : sessionAuditor readOnly
        [⟨if FileRequest.opensForWriting mode.flags then .write else .open, p⟩] with
    | some reason =>
      simp only [hasked] at h
      cases h
    | none =>
      have hrecorded : Inquiry.isRecorded
          ⟨if FileRequest.opensForWriting mode.flags then .write else .open, p⟩ = true := by
        cases mode <;> rfl
      simp only [hasked, List.reverse_singleton, List.filter_cons, hrecorded, if_true,
        List.filter_nil, List.map_cons, List.map_nil, Option.isNone_none]
      exact ⟨trivial, .inr ⟨by simp, _, rfl⟩⟩

/-- Recording that a file was opened goes to the list of events only. -/
lemma record_fileAccess (hlog : m.host.eventLog = none)
    (htriggers : ∀ t ∈ m.host.triggers, t.recorded = none) (name path : Bytes) :
    ∃ events, m.record (.fileAccess name path true) =
      { m with host := { m.host with events } } := by
  rw [record]
  split
  · refine ⟨m.host.events ++ [.fileAccess name path true], ?_⟩
    have hshow : ∀ n : Machine, n.showEvent (.fileAccess name path true) = n := by
      intro n
      rw [showEvent, if_neg (by simp [Event.level, Level.rank])]
    have htrip : ∀ t ∈ m.host.triggers, (t.recorded.any fun text =>
        Bytes.hasInfix text ((Event.fileAccess name path true).jsonLine [] none)) = false := by
      intro t ht
      rw [htriggers t ht]
      rfl
    simp only [logEvent, hlog, hshow]
    exact trip_of_silent htrip
  · exact ⟨m.host.events, rfl⟩

/-- Opening a target that can be opened keeps its handle and is noted; apart from the events
nothing else changes. -/
lemma openFile_target (h : (m.outcome (.openFile p mode.flags)).1 = .ok (.handle f))
    (hlog : ∀ i, m.host.eventLog = some i → m.shell.guard = .none)
    (htriggers : ∀ t ∈ m.host.triggers, t.recorded = none) :
    ∃ events, m.openFile (.openFile p mode.flags) = (.ok m.host.handles.length,
      { m with host := { m.host with
        events, requests := .openFile p mode.flags :: m.host.requests,
        store := (m.outcome (.openFile p mode.flags)).2,
        handles := m.host.handles ++ [f] } }) := by
  obtain ⟨-, htrail⟩ := outcome_target h
  have hrecorded : ∃ events, (m.trail (.openFile p mode.flags)).foldl record
      (m.asked (.openFile p mode.flags)) =
        { m.asked (.openFile p mode.flags) with host :=
          { (m.asked (.openFile p mode.flags)).host with events } } := by
    rcases htrail with htrail | ⟨hguard, name, htrail⟩
    · rw [htrail]
      exact ⟨m.host.events, rfl⟩
    · rw [htrail]
      have hnone : m.host.eventLog = none :=
        Option.eq_none_iff_forall_ne_some.2 fun i hi => hguard (hlog i hi)
      exact record_fileAccess (m := m.asked (.openFile p mode.flags)) hnone htriggers name p
  obtain ⟨events, hrecorded⟩ := hrecorded
  refine ⟨events, ?_⟩
  rw [openFile, request_eq, h, hrecorded]
  rfl

/-- What has been opened was there to be opened. -/
lemma outcome_of_openFile {r : FileRequest} {i : Nat} {n : Machine}
    (h : m.openFile r = (.ok i, n)) : ∃ f, (m.outcome r).1 = .ok (.handle f) := by
  rw [openFile, request_eq] at h
  split at h
  · cases h
  · rename_i f n' heq
    exact ⟨f, (Prod.mk.inj heq).1⟩
  · cases h

end Machine

/-! ### When the output can be redirected to a file -/

/-- The streams lead to no file, or to open files other than that of the key. -/
def Host.KeepsApart (h : Host) (k : Bytes) (s : Streams Endpoint) : Prop :=
  ∀ fd i, s.get? fd = some (.file i) → ∃ f, h.handles[i]? = some f ∧ h.store.key f.path ≠ k

namespace Machine

/-- The key of the file that a name stands for. -/
def target (m : Machine) (name : Bytes) : Bytes := m.host.store.key (m.resolve name)

/-- The output of the shell leads to its session and can be redirected to the file with a name,
which no stream leads to or comes from. -/
structure Divertible (m : Machine) (name : Bytes) : Prop where
  output : m.shell.streams.output = .session
  named : name ≠ []
  directory : ∃ n, m.host.store.find?
    (FileStore.normalize (Path.directory (m.target name))) = some n ∧ n.isDirectory = true
  opens : ∃ f, (m.outcome (.openFile (m.resolve name) Mode.write.flags)).1 = .ok (.handle f)
  closes : m.target name ∉ m.host.failing
  streams : m.host.KeepsApart (m.target name) m.shell.streams
  operator : m.host.KeepsApart (m.target name) m.host.operator.streams
  /-- The shells have numbers that tell them apart. -/
  other : m.host.operator.id ≠ m.shell.id
  anchored : m.host.store.Anchored
  /-- The commands use the standard streams only. -/
  table : CommandTable.Plain m.host.table
  /-- No context is cancelled by what is written or recorded. -/
  triggers : ∀ t ∈ m.host.triggers, t.written = none ∧ t.recorded = none
  /-- Events go to a file only if it is another one and opening files is not recorded. -/
  eventLog : ∀ i, m.host.eventLog = some i → m.shell.guard = .none ∧
    ∃ f, m.host.handles[i]? = some f ∧ m.host.store.key f.path ≠ m.target name

/-- The diversion of the output of the running shell to the file with a name, which is opened
next. -/
def diversion (m : Machine) (name : Bytes) : Diversion where
  shell := m.shell.id
  file := m.target name
  handle := m.host.handles.length
  files := m.host.store
  traffic := m.host.traffic
  asked := m.host.requests
  stale := (List.range m.host.handles.length).filter fun i =>
    m.host.handles[i]?.any fun f => m.host.store.key f.path == m.target name
  older := fun _ hi => List.mem_range.1 (List.mem_filter.1 hi).1
  typed := m.Types

variable {m : Machine} {name : Bytes}

lemma mem_stale {i : Nat} : i ∈ (m.diversion name).stale ↔
    ∃ f, m.host.handles[i]? = some f ∧ m.host.store.key f.path = m.target name := by
  simp only [diversion, List.mem_filter, List.mem_range, Option.any_eq_true, beq_iff_eq]
  refine ⟨And.right, fun h => ⟨?_, h⟩⟩
  obtain ⟨f, hf, -⟩ := h
  exact (List.getElem?_eq_some_iff.1 hf).1

/-- An open file with another key is not the file itself. -/
lemma not_mem_stale {i : Nat} {f : OpenFile} (hf : m.host.handles[i]? = some f)
    (hkey : m.host.store.key f.path ≠ m.target name) : i ∉ (m.diversion name).stale := by
  intro hi
  obtain ⟨g, hg, hkey'⟩ := mem_stale.1 hi
  obtain rfl := Option.some.inj (hf.symm.trans hg)
  exact hkey hkey'

lemma soundAll_of_keepsApart {s : Streams Endpoint}
    (h : m.host.KeepsApart (m.target name) s) : (m.diversion name).SoundAll s := by
  rintro fd e he i hi rfl
  obtain ⟨f, hf, hkey⟩ := h fd i he
  exact not_mem_stale hf hkey hi

/-- Files that are open already keep their numbers. -/
lemma leadAll_of_keepsApart {k : Bytes} {s : Streams Endpoint} (h : m.host.KeepsApart k s)
    (part : Part) (hpart : part ≠ .diverted) : (m.diversion name).leadAll part s = s := by
  have hlead : ∀ (fd : Nat) e, s.get? fd = some e → (m.diversion name).lead part fd e = e := by
    intro fd e he
    cases e with
    | null => rfl
    | session => exact Diversion.lead_session fun hdiverted => hpart hdiverted.1
    | file i =>
      obtain ⟨f, hf, -⟩ := h fd i he
      exact congrArg Endpoint.file
        (Diversion.shift_of_lt (List.getElem?_eq_some_iff.1 hf).1)
  obtain ⟨input, output, error⟩ := s
  rw [Diversion.leadAll, hlead 0 input rfl, hlead 1 output rfl, hlead 2 error rfl]

/-- After the file has been opened, the output is still to be led there. -/
lemma Divertible.opened (h : m.Divertible name) :
    ∃ n, m.openFile (.openFile (m.resolve name) Mode.write.flags) =
        (.ok m.host.handles.length, n) ∧ (m.diversion name).Twin .waiting n m := by
  obtain ⟨f, hf⟩ := h.opens
  obtain ⟨events, hopen⟩ := openFile_target hf (fun i hi => (h.eventLog i hi).1)
    fun t ht => (h.triggers t ht).2
  obtain ⟨dir, hfind, hdir⟩ := h.directory
  have hperform : m.host.store.perform (.openFile (m.resolve name) Mode.write.flags) =
      (.ok (.handle f), (m.outcome (.openFile (m.resolve name) Mode.write.flags)).2) :=
    (outcome_target hf).1.symm.trans (Prod.ext hf rfl)
  obtain ⟨hhandle, node, hempty, hoverlaid⟩ :=
    FileStore.perform_target_write h.anchored hfind hdir hperform
  refine ⟨_, hopen, ⟨m.shell.attachments, m.host.operator.attachments,
    (m.outcome (.openFile (m.resolve name) Mode.write.flags)).2, events,
    .openFile (m.resolve name) Mode.write.flags :: m.host.requests, m.host.calls, []⟩, ?_, ?_⟩
  · simp only [mirrored, leadAll_of_keepsApart h.streams .waiting (by decide),
      leadAll_of_keepsApart h.operator .bystander (by decide)]
    simp [diversion, Diversion.own, Diversion.text, hhandle, target]
  · exact
      { shell := ⟨soundAll_of_keepsApart h.streams, fun n hn => ⟨n, .inl hn⟩⟩
        operator := ⟨soundAll_of_keepsApart h.operator, fun n hn => ⟨n, .inr hn⟩⟩
        running := rfl
        other := h.other
        file := ⟨node, hempty, hoverlaid⟩
        key := rfl
        handles := le_refl _
        stale := fun i f hf hkey => mem_stale.2 ⟨f, hf, hkey⟩
        failing := h.closes
        eventLog := by
          intro i hi
          obtain ⟨-, f, hf, hkey⟩ := h.eventLog i hi
          exact ⟨(List.getElem?_eq_some_iff.1 hf).1, not_mem_stale hf hkey⟩
        triggers := h.triggers
        table := h.table
        traffic := (List.append_nil _).symm
        requests := List.suffix_rfl }

/-! ### Targets that are opened before the file -/

/-- Files other than that of the key have been opened to be read, and apart from the events
nothing else has changed. -/
def OpensOthers (m : Machine) (k : Bytes) (n : Machine) : Prop :=
  ∃ events files asked, (n = { m with host := { m.host with
      events, handles := m.host.handles ++ files, requests := asked ++ m.host.requests } }) ∧
    ∀ f ∈ files, m.host.store.key f.path ≠ k

lemma Divertible.of_opensOthers (h : m.Divertible name) {n : Machine}
    (hn : m.OpensOthers (m.target name) n) : n.Divertible name := by
  obtain ⟨events, files, asked, rfl, -⟩ := hn
  have hkept : ∀ {i : Nat} {f : OpenFile}, m.host.handles[i]? = some f →
      (m.host.handles ++ files)[i]? = some f := by
    intro i f hf
    rw [List.getElem?_append_left (List.getElem?_eq_some_iff.1 hf).1, hf]
  have hapart : ∀ s, m.host.KeepsApart (m.target name) s →
      ({ m.host with
        events, handles := m.host.handles ++ files,
        requests := asked ++ m.host.requests } : Host).KeepsApart (m.target name) s := by
    intro s hs fd i hi
    obtain ⟨f, hf, hkey⟩ := hs fd i hi
    exact ⟨f, hkept hf, hkey⟩
  exact
    { h with
      streams := hapart _ h.streams
      operator := hapart _ h.operator
      eventLog := by
        intro i hi
        obtain ⟨hguard, f, hf, hkey⟩ := h.eventLog i hi
        exact ⟨hguard, f, hkept hf, hkey⟩ }

/-- The redirections are open, each to a file other than that of the key, and no stream is led
anywhere yet. -/
def OpenElsewhere (m : Machine) (k : Bytes) (as : Redirects) : Prop :=
  ∀ a ∈ as, a.saved = none ∧
    ∃ i f, a.handle = some i ∧ m.host.handles[i]? = some f ∧ m.host.store.key f.path ≠ k

lemma OpenElsewhere.sound {as : Redirects} (h : m.OpenElsewhere (m.target name) as) :
    (m.diversion name).SoundRedirects as := by
  intro a ha
  obtain ⟨hsaved, i, f, hi, hf, hkey⟩ := h a ha
  refine ⟨fun j hj => ?_, fun e he => ?_⟩
  · obtain rfl := Option.some.inj (hi.symm.trans hj)
    exact not_mem_stale hf hkey
  · rw [hsaved] at he
    cases he

lemma OpenElsewhere.lead {k : Bytes} {as : Redirects} (h : m.OpenElsewhere k as) :
    (m.diversion name).leadRedirects .waiting as = as := by
  have hlead : ∀ a ∈ as, (m.diversion name).leadAttachment .waiting a = a := by
    intro a ha
    obtain ⟨hsaved, i, f, hi, hf, -⟩ := h a ha
    obtain ⟨r, handle, saved⟩ := a
    obtain rfl : saved = none := hsaved
    obtain rfl : handle = some i := hi
    have hshift : (m.diversion name).shift i = i :=
      Diversion.shift_of_lt (List.getElem?_eq_some_iff.1 hf).1
    simp only [Diversion.leadAttachment, Option.map_some, Option.map_none, hshift]
  rw [Diversion.leadRedirects, List.map_congr_left hlead, List.map_id']

/-- The input of the line is redirected first, from another file. -/
lemma Divertible.openBefore (h : m.Divertible name) {lo : Option Redirection}
    (hlo : ∀ a ∈ lo, a.mode = .read) {as : Redirects} {n : Machine}
    (hopen : Redirects.openTargets m.resolve (.ofList lo.toList) m = (none, as, n))
    (hquiet : (m.diversion name).Quiet n) :
    m.OpensOthers (m.target name) n ∧ n.OpenElsewhere (m.target name) as := by
  cases lo with
  | none =>
    obtain ⟨rfl, rfl⟩ : ([] : Redirects) = as ∧ m = n := by
      simpa [Redirects.ofList, Redirects.openTargets] using hopen
    refine ⟨⟨m.host.events, [], [], by simp, fun f hf => absurd hf List.not_mem_nil⟩, ?_⟩
    exact fun a ha => absurd ha List.not_mem_nil
  | some a =>
    have hmode : a.mode = .read := hlo a rfl
    have hname : a.name ≠ [] := by
      intro hname
      simp [Redirects.ofList, Redirects.openTargets, Redirects.openTarget_nameless hname] at hopen
    have hopen' : ∃ i, m.openFile (.openFile (m.resolve a.name) Mode.read.flags) = (.ok i, n) ∧
        as = [⟨a, some i, none⟩] := by
      simp only [Redirects.ofList, Option.toList_some, List.map_cons, List.map_nil,
        Redirects.openTargets, Redirects.openTarget_named hname, hmode] at hopen
      rcases hfile : m.openFile (.openFile (m.resolve a.name) Mode.read.flags) with ⟨_ | i, n'⟩
      · simp [hfile] at hopen
      · simp only [hfile] at hopen
        obtain ⟨-, rfl, rfl⟩ := hopen
        exact ⟨i, rfl, rfl⟩
    obtain ⟨i, hfile, rfl⟩ := hopen'
    obtain ⟨f, hf⟩ := outcome_of_openFile hfile
    obtain ⟨events, hquietly⟩ := openFile_target hf (fun i hi => (h.eventLog i hi).1)
      fun t ht => (h.triggers t ht).2
    obtain ⟨rfl, rfl⟩ : m.host.handles.length = i ∧ _ = n := by
      rw [hquietly] at hfile
      simpa using hfile
    have hperform : m.host.store.perform (.openFile (m.resolve a.name) Mode.read.flags) =
        (.ok (.handle f), (m.outcome (.openFile (m.resolve a.name) Mode.read.flags)).2) :=
      (outcome_target hf).1.symm.trans (Prod.ext hf rfl)
    obtain ⟨hstore, hpath⟩ := FileStore.perform_target_read hperform
    have hignored := hquiet [.openFile (m.resolve a.name) Mode.read.flags] rfl _
      List.mem_cons_self
    have hkey : m.host.store.key f.path ≠ m.target name := by
      rw [hpath, FileStore.key_key h.anchored]
      exact Ne.symm (hignored.1 _ (List.mem_singleton_self _)).1
    refine ⟨⟨events, [f], [.openFile (m.resolve a.name) Mode.read.flags], ?_, ?_⟩, ?_⟩
    · rw [hstore]
      rfl
    · exact fun g hg => (List.mem_singleton.1 hg) ▸ hkey
    · intro b hb
      obtain rfl := List.mem_singleton.1 hb
      refine ⟨rfl, _, f, rfl, by simp, ?_⟩
      show (m.outcome (.openFile (m.resolve a.name) Mode.read.flags)).2.key f.path ≠ _
      rw [hstore]
      exact hkey

end Machine

end ConsoleShell
