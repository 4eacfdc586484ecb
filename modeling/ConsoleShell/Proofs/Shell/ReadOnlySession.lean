/-
Read-only sessions.

In a read-only session every way from a line to a file goes through a guard that refuses
changes: scripts and completions open files for reading, the directory is only looked at, and
the target of an output redirection is asked for as a write.  So whatever runs, every property
of the files lasts that they spare while they are only looked at.  A line that redirects its
output is refused before anything of it is run: the refusal is recorded, a diagnostic is written,
and the line counts as failed.  A line that would run a script without a name fails before it
comes to its outputs, so that there is no refusal to record.
-/
import ConsoleShell.Commands.Standard
import ConsoleShell.Proofs.File.ReadOnly
import ConsoleShell.Proofs.Shell.Dispatch
import ConsoleShell.Proofs.Shell.Evolution

namespace ConsoleShell

variable {σ : Type}

namespace Machine

/-! ### Properties that files keep -/

/-- The sessions of the shell and of the operator's shell are read-only, the files have a property,
and every handle that is open is harmless. -/
structure Safe (P : σ → Prop) (harmless : OpenFile → Prop) (m : Machine σ) : Prop where
  guard : m.shell.guard = .session true
  operator : m.host.operator.guard = .session true
  files : P m.host.store
  handles : ∀ f ∈ m.host.handles, harmless f

namespace Safe

variable {P : σ → Prop} {harmless : OpenFile → Prop} {m m' : Machine σ}

/-- A change that touches neither the guards nor the files. -/
lemma of_eq (h : m.Safe P harmless) (hguard : m'.shell.guard = m.shell.guard)
    (hoperator : m'.host.operator.guard = m.host.operator.guard)
    (hstore : m'.host.store = m.host.store) (hhandles : m'.host.handles = m.host.handles) :
    m'.Safe P harmless where
  guard := hguard.trans h.guard
  operator := hoperator.trans h.operator
  files := hstore ▸ h.files
  handles := hhandles ▸ h.handles

lemma harmless_of_getElem? (h : m.Safe P harmless) {i : Nat} {f : OpenFile}
    (hf : m.host.handles[i]? = some f) : harmless f :=
  h.handles f (List.mem_of_getElem? hf)

lemma setFile (h : m.Safe P harmless) {f : OpenFile} {store : σ} (hf : harmless f ∧ P store)
    (i : Nat) : (m.setFile i f store).Safe P harmless where
  guard := h.guard
  operator := h.operator
  files := hf.2
  handles := by
    intro g hg
    rcases List.mem_or_eq_of_mem_set hg with hg | rfl
    · exact h.handles g hg
    · exact hf.1

variable [FileBase σ] (hspared : FileBase.Spared FileRequest.Usual P harmless) {r : FileRequest}
  (hr : r.Usual)
include hspared hr

/-- Whatever is asked for, the guard lets through nothing but looking. -/
lemma asked (h : m.Safe P harmless) : (m.asked r).Safe P harmless where
  guard := h.guard
  operator := h.operator
  files := by
    simp only [Machine.asked, outcome, h.guard]
    exact AuditedStore.spared_perform hspared hr h.files
  handles := h.handles

lemma harmless_of_outcome (h : m.Safe P harmless) {f : OpenFile}
    (hf : (m.outcome r).1 = .ok (.handle f)) : harmless f := by
  simp only [outcome, h.guard] at hf
  exact AuditedStore.harmless_of_perform hspared hr h.files hf

end Safe

/-- Each kind of step keeps what the files of a read-only session spare. -/
lemma Evolves.safe [FileBase σ] {P : σ → Prop} {harmless : OpenFile → Prop}
    (hspared : FileBase.Spared FileRequest.Usual P harmless) {m m' : Machine σ}
    (hevolves : Evolves m m') (h : m.Safe P harmless) : m'.Safe P harmless := by
  induction hevolves with
  | refl => exact h
  | trans _ _ ih ih' => exact ih' (ih h)
  | shell => exact h.of_eq rfl rfl rfl rfl
  | books => exact h.of_eq rfl rfl rfl rfl
  | transfer => exact h.of_eq rfl rfl rfl rfl
  | ask m hr => exact h.asked hspared hr
  | keep hr hf _ ih =>
    -- the handle is harmless because the guard let it out when the operation was performed
    have hkept := h.harmless_of_outcome hspared hr hf
    have hnext := ih (h.asked hspared hr)
    refine ⟨hnext.guard, hnext.operator, hnext.files, fun g hg => ?_⟩
    rcases List.mem_append.1 hg with hg | hg
    · exact hnext.handles g hg
    · obtain rfl := List.mem_singleton.1 hg
      exact hkept
  | readFile m i count =>
    rw [Machine.readFile]
    split
    · exact h
    · rename_i f hf
      exact h.setFile (hspared.read count (h.harmless_of_getElem? hf) h.files) i
  | writeFile m i text =>
    rw [Machine.writeFile]
    split
    · exact h
    · rename_i f hf
      exact h.setFile (hspared.write text (h.harmless_of_getElem? hf) h.files) i
  | closeHandle m i =>
    rw [Machine.closeHandle]
    split
    · exact h
    · rename_i f hf
      exact h.setFile (hspared.close (h.harmless_of_getElem? hf) h.files) i
  | listDirectory m path =>
    exact ⟨h.guard, h.operator, hspared.list path h.files, h.handles⟩
  | attend _ _ ih =>
    have hnext := ih ⟨h.operator, h.operator, h.files, h.handles⟩
    exact ⟨h.guard, hnext.guard, hnext.files, hnext.handles⟩

end Machine

/-! ### Recording and reporting -/

namespace Machine

/-- `m'` comes from `m` by input and output that leaves the shell alone, calls no command and
records the events `es`. -/
structure Records (m : Machine σ) (es : List Event) (m' : Machine σ) : Prop where
  shell : m'.shell = m.shell
  calls : m'.host.calls = m.host.calls
  events : m'.host.events = m.host.events ++ if m.shell.recorded then es else []
  traffic : m.host.traffic <+: m'.host.traffic

namespace Records

variable {m m' m'' : Machine σ} {es es' : List Event}

/-- A change of other things. -/
lemma of_eq (hshell : m'.shell = m.shell) (hcalls : m'.host.calls = m.host.calls)
    (hevents : m'.host.events = m.host.events) (htraffic : m.host.traffic <+: m'.host.traffic) :
    Records m [] m' where
  shell := hshell
  calls := hcalls
  events := by rw [hevents, ite_self, List.append_nil]
  traffic := htraffic

lemma refl (m : Machine σ) : Records m [] m := of_eq rfl rfl rfl List.prefix_rfl

lemma trans (h : Records m es m') (h' : Records m' es' m'') : Records m (es ++ es') m'' where
  shell := h'.shell.trans h.shell
  calls := h'.calls.trans h.calls
  events := by
    rw [h'.events, h.events, h.shell]
    split <;> simp
  traffic := h.traffic.trans h'.traffic

lemma foldl {α : Type} {f : Machine σ → α → Machine σ} (hf : ∀ m a, Records m [] (f m a))
    (as : List α) (m : Machine σ) : Records m [] (as.foldl f m) := by
  induction as generalizing m with
  | nil => exact refl m
  | cons a as ih => exact (hf m a).trans (ih (f m a))

end Records

section

variable (m : Machine σ)

lemma records_transfer (fd : Nat) (data : Bytes) : Records m [] (m.transfer fd data) :=
  .of_eq rfl rfl rfl (List.prefix_append _ _)

lemma records_trip (test : Trigger → Bool) : Records m [] (m.trip test) :=
  .of_eq rfl rfl rfl List.prefix_rfl

variable [FileBase σ]

lemma records_writeFile (h : Nat) (text : Bytes) : Records m [] (m.writeFile h text).2 := by
  rw [writeFile]
  split
  · exact .refl m
  · exact .of_eq rfl rfl rfl List.prefix_rfl

lemma records_record (e : Event) : Records m [e] (m.record e) := by
  have hlog : ∀ n : Machine σ, Records n [] (n.logEvent e) := by
    intro n
    rw [logEvent]
    split
    · exact .refl n
    · exact n.records_writeFile _ _
  have hshow : ∀ n : Machine σ, Records n [] (n.showEvent e) := by
    intro n
    rw [showEvent]
    split
    · exact n.records_transfer _ _
    · exact .refl n
  rw [record]
  split
  · rename_i hrecorded
    have hevent : Records m [e]
        { m with host := { m.host with events := m.host.events ++ [e] } } :=
      ⟨rfl, rfl, by rw [if_pos hrecorded], List.prefix_rfl⟩
    exact ((hevent.trans (hlog _)).trans (hshow _)).trans (records_trip _ _)
  · rename_i hrecorded
    exact ⟨rfl, rfl, by rw [if_neg hrecorded, List.append_nil], List.prefix_rfl⟩

lemma records_foldl_record (es : List Event) : Records m es (es.foldl record m) := by
  induction es generalizing m with
  | nil => exact .refl m
  | cons e es ih => exact (m.records_record e).trans (ih (m.record e))

lemma records_request (r : FileRequest) : Records m (m.trail r) (m.request r).2 := by
  have hasked : Records m [] (m.asked r) := .of_eq rfl rfl rfl List.prefix_rfl
  rw [request_eq]
  exact hasked.trans (records_foldl_record _ _)

lemma records_openFile (r : FileRequest) : Records m (m.trail r) (m.openFile r).2 := by
  have hrequest := m.records_request r
  rw [openFile]
  split
  · rename_i h
    rwa [h] at hrequest
  · rename_i f n h
    rw [h] at hrequest
    have hkeep : Records n [] (n.keep f).2 := .of_eq rfl rfl rfl List.prefix_rfl
    simpa using hrequest.trans hkeep
  · rename_i h
    rwa [h] at hrequest

lemma records_closeHandle (h : Nat) : Records m [] (m.closeHandle h).2 := by
  rw [closeHandle]
  split
  · exact .refl m
  · exact .of_eq rfl rfl rfl List.prefix_rfl

lemma records_writeTo (fd : Nat) (e : Endpoint) (text : Bytes) :
    Records m [] (m.writeTo fd e text) := by
  cases e with
  | null => exact .refl m
  | session => exact (m.records_transfer fd text).trans (records_trip _ _)
  | file h => exact m.records_writeFile h text

end

end Machine

open Machine

variable [FileBase σ]

namespace Redirects

lemma records_close (rs : Redirects) (m : Machine σ) : Records m [] (close rs m).2.2 := by
  induction rs generalizing m with
  | nil => exact .refl m
  | cons a rs ih =>
    rw [close]
    split
    · exact ih m
    · exact (m.records_closeHandle _).trans (ih _)

end Redirects

namespace Interpreter

lemma records_report (location : Location) (message : Bytes) (m : Machine σ) :
    Records m [] (report location message m) := by
  rw [report]
  split
  · exact m.records_writeTo _ _ _
  · exact (Records.foldl (fun m t => m.records_writeTo _ _ t) _ m).trans (records_writeTo _ _ _ _)

/-- A diagnostic that goes to the session is the last thing written to it, after what shows
where it comes from. -/
lemma traffic_report (location : Location) (message : Bytes) {m : Machine σ}
    (h : m.shell.streams.error = .session) :
    ∃ before start, (report location message m).host.traffic =
      m.host.traffic ++ before ++ [⟨m.shell.id, 2, start ++ message.line⟩] := by
  have hlast : ∀ n : Machine σ, n.shell.streams.error = .session → ∀ text : Bytes,
      (n.writeLine .error text).host.traffic =
        n.host.traffic ++ [⟨n.shell.id, 2, text.line⟩] := by
    intro n hn text
    simp only [writeLine, write, Streams.written, hn]
    rfl
  rw [report]
  split
  · exact ⟨[], [], by rw [hlast m h, List.append_nil, List.nil_append]⟩
  · -- the location is written first, in one or more pieces
    have hpieces := Records.foldl (fun m t => m.records_writeTo Output.error.fd
      (m.shell.streams.written .error) t) (styled m.shell.colored "31" location.text) m
    obtain ⟨before, hbefore⟩ := hpieces.traffic
    refine ⟨before, [Ascii.space], ?_⟩
    rw [hbefore]
    have hshell := hpieces.shell
    simp only [write]
    rw [hlast _ (by rw [hshell]; exact h), hshell]
    rfl

end Interpreter

/-! ### Lines that are refused their output -/

namespace Machine

/-- A read-only session refuses to open a target for writing, and records that it did. -/
lemma openFile_of_readOnly {m : Machine σ} (hguard : m.shell.guard = .session true) (p : Bytes)
    {mode : Mode} (hmode : mode ≠ .read) :
    (m.openFile (.openFile p mode.flags)).1 = .error ⟨"write", p, .permissionDenied⟩ ∧
      m.trail (.openFile p mode.flags) = [.fileAccess "write" p false] := by
  have hwrite : FileRequest.opensForWriting mode.flags = true := by
    cases mode with
    | read => exact absurd rfl hmode
    | write => rfl
    | append => rfl
  have hperform : ∀ s : σ, AuditedStore.perform ⟨s, []⟩ (sessionAuditor true)
      (.openFile p mode.flags) =
        (.error ⟨"write", p, .permissionDenied⟩, ⟨s, [⟨.write, p⟩]⟩) := by
    intro s
    simp only [AuditedStore.perform, UnderAudit.perform, FileRequest.inquiries, hwrite, if_true]
    rfl
  constructor
  · rw [openFile, request_eq]
    simp only [outcome, hguard, hperform]
  · simp only [trail, hguard, hperform]
    rfl

/-- What a line leaves that fails before anything of it is run: no command is called, a diagnostic
is written, and the line counts as failed. -/
structure Rejected (m : Machine σ) (f : RedirectionFault) (location : Location)
    (m' : Machine σ) : Prop where
  calls : m'.host.calls = m.host.calls
  /-- The diagnostic is written by the shell as it was. -/
  reported : ∃ n : Machine σ, n.shell = m.shell ∧ m' = Interpreter.fail location f.message n
  diagnostic : m.shell.streams.error = .session → ∃ before start, m'.host.traffic =
    m.host.traffic ++ before ++ [⟨m.shell.id, 2, start ++ f.message.line⟩]
  errored : m.shell.scopes ≠ [] → m'.isErrored = true

/-- What a line leaves whose target with a name is refused: the line is rejected, and the refusal
is recorded. -/
structure Refused (m : Machine σ) (name : Bytes) (location : Location) (m' : Machine σ) : Prop
    extends Rejected m ⟨name, .permissionDenied⟩ location m' where
  denied : m.shell.recorded = true → ∃ before, m'.host.events =
    m.host.events ++ before ++ [.fileAccess "write" (m.resolve name) false]

namespace Records

variable {m n : Machine σ} {es : List Event}

lemma fail (h : Records m es n) (location : Location) (message : Bytes) :
    (Interpreter.fail location message n).host.events =
      m.host.events ++ if m.shell.recorded then es else [] := by
  have hreport := Interpreter.records_report location message n
  rw [Interpreter.fail, host_setErrored, hreport.events, h.events, ite_self, List.append_nil]

/-- A failure is reported after what was recorded, and the line is marked. -/
lemma rejected (h : Records m es n) (location : Location) (f : RedirectionFault) :
    Rejected m f location (Interpreter.fail location f.message n) := by
  have hreport := Interpreter.records_report location f.message n
  refine ⟨?_, ⟨n, h.shell, rfl⟩, fun hsession => ?_, fun hs => ?_⟩
  · rw [Interpreter.fail, host_setErrored, hreport.calls, h.calls]
  · obtain ⟨before', hbefore'⟩ := h.traffic
    have herror : n.shell.streams.error = .session := by rw [h.shell]; exact hsession
    obtain ⟨pieces, start, htraffic⟩ := Interpreter.traffic_report location f.message herror
    refine ⟨before' ++ pieces, start, ?_⟩
    rw [Interpreter.fail, host_setErrored, htraffic, ← hbefore', h.shell, List.append_assoc,
      List.append_assoc]
    simp
  · rw [Interpreter.fail]
    exact isErrored_setErrored (by rw [hreport.shell, h.shell]; exact hs) true

lemma refused {before : List Event} {name : Bytes}
    (h : Records m (before ++ [.fileAccess "write" (m.resolve name) false]) n)
    (location : Location) :
    Refused m name location
      (Interpreter.fail location (RedirectionFault.message ⟨name, .permissionDenied⟩) n) where
  toRejected := h.rejected location ⟨name, .permissionDenied⟩
  denied hrecorded := ⟨before, by rw [h.fail, if_pos hrecorded, List.append_assoc]⟩

end Records

end Machine

namespace Redirects

/-- The first target is refused if it is to be written. -/
lemma openTarget_refused {m : Machine σ} (hguard : m.shell.guard = .session true)
    (resolve : Bytes → Bytes) {r : Redirection} (hname : r.name ≠ []) (hmode : r.mode ≠ .read) :
    openTarget resolve { redirection := r } m =
      (.error ⟨r.name, .permissionDenied⟩,
        (m.openFile (.openFile (resolve r.name) r.mode.flags)).2) := by
  obtain ⟨hanswer, -⟩ := openFile_of_readOnly hguard (resolve r.name) hmode
  have hopen : m.openFile (.openFile (resolve r.name) r.mode.flags) =
      (.error ⟨"write", resolve r.name, .permissionDenied⟩,
        (m.openFile (.openFile (resolve r.name) r.mode.flags)).2) := Prod.ext hanswer rfl
  have hne : r.name.isEmpty = false := by simpa using hname
  simp only [openTarget, Option.isSome_none, Bool.false_eq_true, if_false, hne,
    Machine.openPath_eq]
  rw [hopen]

lemma openTargets_refused {m : Machine σ} (hguard : m.shell.guard = .session true)
    (resolve : Bytes → Bytes) (rest : List Redirection) {r : Redirection} (hname : r.name ≠ [])
    (hmode : r.mode ≠ .read) :
    ∃ n, openTargets resolve (ofList (r :: rest)) m =
        (some ⟨r.name, .permissionDenied⟩, ofList (r :: rest), n) ∧
      Records m [.fileAccess "write" (resolve r.name) false] n := by
  refine ⟨(m.openFile (.openFile (resolve r.name) r.mode.flags)).2, ?_, ?_⟩
  · simp only [ofList, List.map_cons, openTargets]
    rw [openTarget_refused hguard resolve hname hmode]
  · have hrecords := m.records_openFile (.openFile (resolve r.name) r.mode.flags)
    rwa [(openFile_of_readOnly hguard (resolve r.name) hmode).2] at hrecords

/-- A target that opens. -/
lemma openTarget_of_ok {m : Machine σ} {resolve : Bytes → Bytes} {i : Redirection} {h : Nat}
    (hname : i.name ≠ [])
    (hopen : (m.openFile (.openFile (resolve i.name) i.mode.flags)).1 = .ok h) :
    openTarget resolve { redirection := i } m =
      (.ok { redirection := i, handle := some h },
        (m.openFile (.openFile (resolve i.name) i.mode.flags)).2) := by
  have hpair : m.openFile (.openFile (resolve i.name) i.mode.flags) =
      (.ok h, (m.openFile (.openFile (resolve i.name) i.mode.flags)).2) := Prod.ext hopen rfl
  have hne : i.name.isEmpty = false := by simpa using hname
  simp only [openTarget, Option.isSome_none, Bool.false_eq_true, if_false, hne,
    Machine.openPath_eq]
  rw [hpair]

/-- When a target fails to open, those before it are closed again. -/
lemma openAll_of_fault {m n : Machine σ} {resolve : Bytes → Bytes} {rs rs' : Redirects}
    {f : RedirectionFault} {es : List Event}
    (hopen : openTargets resolve rs m = (some f, rs', n)) (hrecords : Records m es n) :
    ∃ rs' n, openAll resolve rs m = (some f, rs', n) ∧ Records m es n := by
  refine ⟨(close rs' n).2.1, (close rs' n).2.2, by simp only [openAll, hopen], ?_⟩
  simpa using hrecords.trans (records_close rs' n)

/-- Where the input opens, or there is none, the first target that is to be written decides. -/
lemma openAll_refused {m : Machine σ} (hguard : m.shell.guard = .session true)
    (resolve : Bytes → Bytes) {input? : Option Redirection} (rest : List Redirection)
    {r : Redirection}
    (hinput : ∀ i ∈ input?, i.name ≠ [] ∧
      ∃ h, (m.openFile (.openFile (resolve i.name) i.mode.flags)).1 = .ok h)
    (hname : r.name ≠ []) (hmode : r.mode ≠ .read) :
    ∃ before rs n, openAll resolve (ofList (input?.toList ++ r :: rest)) m =
        (some ⟨r.name, .permissionDenied⟩, rs, n) ∧
      Records m (before ++ [.fileAccess "write" (resolve r.name) false]) n := by
  cases input? with
  | none =>
    obtain ⟨n, hopen, hrecords⟩ := openTargets_refused hguard resolve rest hname hmode
    exact ⟨[], openAll_of_fault hopen hrecords⟩
  | some i =>
    obtain ⟨hiname, h, hanswer⟩ := hinput i rfl
    have hopened := openTarget_of_ok hiname hanswer
    have hfirst := m.records_openFile (.openFile (resolve i.name) i.mode.flags)
    have hguard' := hguard
    rw [← hfirst.shell] at hguard'
    obtain ⟨n, hopen, hrecords⟩ := openTargets_refused hguard' resolve rest hname hmode
    have hall : openTargets resolve ({ redirection := i } :: ofList (r :: rest)) m =
        (some ⟨r.name, .permissionDenied⟩,
          { redirection := i, handle := some h } :: ofList (r :: rest), n) := by
      rw [openTargets, hopened]
      dsimp only
      rw [hopen]
    exact ⟨_, openAll_of_fault hall (hfirst.trans hrecords)⟩

end Redirects

namespace Interpreter

/-- A line that redirects an output, and whose input opens if it has one, is refused in a
read-only session before anything of it is run. -/
lemma handleSplit_refused {m : Machine σ} (hguard : m.shell.guard = .session true) {text : Bytes}
    {line : Line} (hsplit : Line.split text = .ok line) (hexit : line.words.head? ≠ some "exit")
    {r : Redirection} {rest : List Redirection}
    (houtputs : line.redirections.filter (fun r => r.fd != 0) = r :: rest) (hname : r.name ≠ [])
    (hinput : ∀ i ∈ line.redirections, i.fd = 0 → i.name ≠ [] ∧
      (line.words ≠ [] → ∃ h, (m.openFile (.openFile (m.resolve i.name) i.mode.flags)).1 = .ok h))
    (location : Location) :
    ∃ m', (∀ invoke context, handleSplit invoke context line location m = some (.goOn, m')) ∧
      Refused m r.name location m' := by
  have hr := List.mem_filter.1 (houtputs ▸ List.mem_cons_self : r ∈ line.redirections.filter _)
  have hmode : r.mode ≠ .read := by
    rw [ne_eq, Line.mode_of_split hsplit hr.1]
    simpa using hr.2
  obtain ⟨input?, hfd, hrs⟩ := Line.redirections_eq (Line.pairwise_fds_of_split hsplit)
  rw [houtputs] at hrs
  -- what is left to show once it is known which targets are opened
  have hrefused : ∀ {before : List Event} {n : Machine σ},
      Records m (before ++ [.fileAccess "write" (m.resolve r.name) false]) n →
      (∀ invoke context, handleSplit invoke context line location m = some (.goOn,
        fail location (RedirectionFault.message ⟨r.name, .permissionDenied⟩) n)) →
      ∃ m', (∀ invoke context, handleSplit invoke context line location m = some (.goOn, m')) ∧
        Refused m r.name location m' := fun hrecords hrun => ⟨_, hrun, hrecords.refused location⟩
  have hnoInput : ∀ i ∈ (none : Option Redirection), i.name ≠ [] ∧
      ∃ h, (m.openFile (.openFile (m.resolve i.name) i.mode.flags)).1 = .ok h := by simp
  by_cases hscript : line.words = [] ∧ input?.isSome
  · obtain ⟨hwords, hsome⟩ := hscript
    obtain ⟨i, rfl⟩ := Option.isSome_iff_exists.1 hsome
    have hfind : (Redirects.ofList line.redirections).input? = some i := by
      rw [Redirects.input?_ofList, hrs]
      simp [hfd i rfl]
    obtain ⟨hiname, -⟩ := hinput i (by rw [hrs]; simp) (hfd i rfl)
    obtain ⟨before, rs, n, hopen, hrecords⟩ :=
      Redirects.openAll_refused hguard m.resolve rest hnoInput hname hmode
    rw [Option.toList_none, List.nil_append] at hopen
    refine hrefused hrecords fun invoke context => ?_
    have hwithout : (Redirects.ofList line.redirections).without 0 =
        Redirects.ofList (r :: rest) := by rw [Redirects.without_ofList, houtputs]
    rw [handleSplit_script hwords hfind, hwithout, nested_refused invoke hiname hopen]
    rfl
  · have hcommand : line.words = [] → (Redirects.ofList line.redirections).input? = none := by
      intro hwords
      have hnone : input? = none := by
        cases input? with
        | none => rfl
        | some i => exact absurd ⟨hwords, rfl⟩ hscript
      rw [Redirects.input?_ofList, List.find?_eq_none]
      intro x hx
      rw [hrs, hnone] at hx
      have hx' := List.mem_filter.1 (houtputs.symm ▸ hx : x ∈ line.redirections.filter _)
      simpa using hx'.2
    have hopens : ∀ i ∈ input?, i.name ≠ [] ∧
        ∃ h, (m.openFile (.openFile (m.resolve i.name) i.mode.flags)).1 = .ok h := by
      intro i hi
      obtain ⟨hiname, hopen⟩ := hinput i (by rw [hrs, hi]; simp) (hfd i hi)
      refine ⟨hiname, hopen fun hwords => hscript ⟨hwords, by rw [hi]; rfl⟩⟩
    obtain ⟨before, rs, n, hopen, hrecords⟩ :=
      Redirects.openAll_refused hguard m.resolve rest hopens hname hmode
    refine hrefused hrecords fun invoke context => ?_
    rw [← hrs] at hopen
    rw [handleSplit_command hcommand hexit, dispatch_refused invoke hopen]
    rfl

/-- A line that would run a script without a name is rejected; nothing is recorded about it. -/
lemma handleSplit_nameless {line : Line} {i : Redirection} (hwords : line.words = [])
    (hinput : (Redirects.ofList line.redirections).input? = some i) (hname : i.name = [])
    (location : Location) (m : Machine σ) :
    ∃ m', (∀ invoke context, handleSplit invoke context line location m = some (.goOn, m')) ∧
      Rejected m ⟨[], .notExist⟩ location m' ∧ m'.host.events = m.host.events := by
  refine ⟨fail location (RedirectionFault.message ⟨[], .notExist⟩) m, fun invoke context => ?_,
    (Records.refl m).rejected location ⟨[], .notExist⟩, ?_⟩
  · rw [handleSplit_script hwords hinput, hname, nested_nameless]
    rfl
  · rw [(Records.refl m).fail, ite_self, List.append_nil]

end Interpreter

namespace Machine

/-- **A read-only session changes no files.**  Whatever script, console input or line is run in
it, every property lasts that the files spare while they are only looked at, such as what each
path has, as long as no handle that was open before can harm it.  A line that redirects an output
to a target with a name, and whose input opens if its command has one, runs nothing: it only has
the refusal of its first output recorded, a diagnostic written, and itself marked as failed.  So
does a line that would run a script with a name.  If that script has no name, nothing is run
either, a diagnostic is written and the line is marked, but nothing is recorded. -/
theorem readOnly_session_changes_nothing {m : Machine σ} (hguard : m.shell.guard = .session true)
    (hoperator : m.host.operator.guard = .session true) :
    (∀ (P : σ → Prop) (harmless : OpenFile → Prop),
      FileBase.Spared FileRequest.Usual P harmless →
      P m.host.store → (∀ f ∈ m.host.handles, harmless f) →
      ∀ fuel context definitions o m',
        ((∃ path, m.load fuel context path definitions = some (o, m')) ∨
          ∃ line, m.runLine fuel context line definitions = some (o, m')) →
        P m'.host.store) ∧
    (∀ text line location r rest, Line.split text = .ok line →
      line.words.head? ≠ some "exit" →
      line.redirections.filter (fun r => r.fd != 0) = r :: rest → r.name ≠ [] →
      (∀ i ∈ line.redirections, i.fd = 0 → i.name ≠ [] ∧
        (line.words ≠ [] →
          ∃ h, (m.openFile (.openFile (m.resolve i.name) i.mode.flags)).1 = .ok h)) →
      ∃ m', (∀ invoke context,
          Interpreter.handleSplit invoke context line location m = some (.goOn, m')) ∧
        Refused m r.name location m') ∧
    ∀ line location i, line.words = [] →
      (Redirects.ofList line.redirections).input? = some i → i.name = [] →
      ∃ m', (∀ invoke context,
          Interpreter.handleSplit invoke context line location m = some (.goOn, m')) ∧
        Rejected m ⟨[], .notExist⟩ location m' ∧ m'.host.events = m.host.events := by
  refine ⟨?_, ?_, ?_⟩
  · intro P harmless hspared hfiles hhandles fuel context definitions o m' hrun
    exact ((evolves_run hrun).safe hspared ⟨hguard, hoperator, hfiles, hhandles⟩).files
  · intro text line location r rest hsplit hexit houtputs hname hinput
    exact Interpreter.handleSplit_refused hguard hsplit hexit houtputs hname hinput location
  · intro line location i hwords hinput hname
    exact Interpreter.handleSplit_nameless hwords hinput hname location m

/-- A line with an input that opens and an output that is refused, in a session with a file. -/
theorem readOnly_session_changes_nothing_redirected :
    let m : Machine :=
      { shell := { guard := .session true, scopes := [{}] }
        host := { table := CommandTable.standard
                  store := { entries := [("/a", .file "x"), ("/", .directory)] }
                  operator := { id := 1, guard := .session true } } }
    (∃ o m', m.runLine 3 none "echo hi < a > b" [] = some (o, m') ∧
      m'.host.store.find? "/a" = some (.file "x") ∧ m'.host.store.find? "/b" = none) ∧
    ∃ line m', Line.split "echo hi < a > b" = .ok line ∧
      (∀ invoke context,
        Interpreter.handleSplit invoke context line {} m = some (.goOn, m')) ∧
      Refused m "b" {} m' := by
  intro m
  obtain ⟨hlasts, hrefused, -⟩ := readOnly_session_changes_nothing (m := m) rfl rfl
  constructor
  · have hruns : (m.runLine 3 none "echo hi < a > b" []).isSome = true := by decide +kernel
    obtain ⟨⟨o, m'⟩, hrun⟩ := Option.isSome_iff_exists.1 hruns
    have hfind : ∀ p, m'.host.store.find? p = m.host.store.find? p := fun p =>
      (hlasts _ _ (m.host.store.spared_path p _) ⟨rfl, rfl⟩ (fun f hf => by cases hf) 3 none [] o m'
        (.inr ⟨_, hrun⟩)).2
    refine ⟨o, m', hrun, ?_, ?_⟩
    · rw [hfind "/a"]
      decide +kernel
    · rw [hfind "/b"]
      decide +kernel
  · have hsplit : Line.split "echo hi < a > b" =
        .ok ⟨["echo", "hi"], [⟨0, .read, "a"⟩, ⟨1, .write, "b"⟩]⟩ := by decide +kernel
    obtain ⟨m', hrun, hline⟩ := hrefused _ _ {} ⟨1, .write, "b"⟩ [] hsplit (by decide) rfl
      (by decide) (by
        intro i hi hfd
        have hi' : i = ⟨0, .read, "a"⟩ ∨ i = ⟨1, .write, "b"⟩ := by simpa using hi
        rcases hi' with rfl | rfl
        · exact ⟨by decide, fun _ => ⟨0, by decide +kernel⟩⟩
        · cases hfd)
    exact ⟨_, m', hsplit, hrun, hline⟩

/-- The refusal of an output is not recorded for a line that would run a script without a name. -/
theorem nameless_script_leaves_no_record :
    let m : Machine :=
      { shell := { guard := .session true, recorded := true, scopes := [{}] }
        host := { table := CommandTable.standard
                  operator := { id := 1, guard := .session true } } }
    ∃ line m', Line.split "< '' > /out" = .ok line ∧ line.words = [] ∧
      line.redirections.filter (fun r => r.fd != 0) = [⟨1, .write, "/out"⟩] ∧
      (∀ invoke context,
        Interpreter.handleSplit invoke context line {} m = some (.goOn, m')) ∧
      .fileAccess "write" (m.resolve "/out") false ∉ m'.host.events := by
  intro m
  refine ⟨⟨[], [⟨0, .read, []⟩, ⟨1, .write, "/out"⟩]⟩, _, by decide +kernel, rfl, rfl,
    fun _ _ => rfl, ?_⟩
  decide +kernel

end Machine

end ConsoleShell
