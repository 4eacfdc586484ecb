/-
The trail that commands leave among the recorded events.

Right before a command is called, the words of its line are recorded.  Commands are called in
no other way, so that what is recorded about calls can be compared, event by event, with the
calls themselves: over whole runs, by going through the interpreter once, and for each line,
by going through its dispatch.  A line that calls no command says why, and a call that fails
or crashes is recorded once more after everything that it led to.
-/
import ConsoleShell.Proofs.Commands.Usual
import ConsoleShell.Proofs.Shell.Idle
import ConsoleShell.Proofs.Shell.Invocation

namespace ConsoleShell

/-! ### Commands that leave the trail to the shell -/

/-- The words of the call that an event announces. -/
def Event.announced? : Event → Option (List Bytes)
  | .runCommand words => some words
  | _ => none

lemma Event.announced?_eq_none {e : Event} (h : e.kind ≠ .runCommand) : e.announced? = none := by
  cases e with
  | runCommand words => exact absurd rfl h
  | _ => rfl

/-- The query does not announce a call. -/
def Query.IsModest : Query → Prop
  | .record e => e.kind ≠ .runCommand
  | _ => True

lemma Query.IsOrdinary.isModest {q : Query} (h : q.IsOrdinary) : q.IsModest := by
  cases q with
  | record e =>
    rcases (h : e.kind = .errorLog ∨ e.kind = .invalidInvocation) with he | he <;>
      · show e.kind ≠ .runCommand
        rw [he]
        decide
  | _ => trivial

/-- The routine announces no call. -/
def Routine.Modest {α : Type} (r : Routine α) : Prop := r.Asks Query.IsModest fun _ _ => True

/-- For all arguments the routine of the command announces no call. -/
def CommandBody.Modest (body : CommandBody) : Prop := ∀ args, (body args).Modest

lemma CommandBody.Usual.modest {body : CommandBody} (h : CommandBody.Usual body) :
    CommandBody.Modest body :=
  fun args => (h args).asks (fun _ => Query.IsOrdinary.isModest) fun _ => trivial

namespace CommandTable

/-- No command of the table announces a call by itself. -/
def Modest (t : CommandTable) : Prop := t.All CommandBody.Modest

/-- Registering variables leaves a table whose commands announce no call. -/
theorem Modest.addVariable {t : CommandTable} (h : t.Modest) (v : Variable) :
    Modest (addVariable t v).table :=
  All.addVariable h Commands.still_var.usual.modest v

/-- The commands that come with the shell announce no call. -/
theorem modest_standard : Modest standard := fun name c hc => (usual_standard name c hc).modest

end CommandTable

/-- What is recorded about a call when it is over. -/
def Verdict.trail (words : List Bytes) : Verdict → List Event
  | .done => []
  | .failed f => [.invalidInvocation words f.message]
  | .crashed cause =>
    [.crash cause [], .invalidInvocation words (("panic: " : Bytes) ++ cause)]

namespace Machine

/-! ### Calls and what is recorded about them -/

/-- The words of the calls by shells that record, from the earliest to the latest. -/
def recordedWords (calls : List Call) : List (List Bytes) :=
  (calls.reverse.filter fun c => c.shell.recorded).map Call.words

lemma recordedWords_append (calls calls' : List Call) :
    recordedWords (calls' ++ calls) = recordedWords calls ++ recordedWords calls' := by
  simp [recordedWords]

/-- The events that are recorded on the way announce exactly the calls on the way. -/
structure Audited (m m' : Machine) : Prop where
  table : m'.host.table = m.host.table
  recorded : m'.shell.recorded = m.shell.recorded
  trail : ∃ events calls, m'.host.events = m.host.events ++ events ∧
    m'.host.calls = calls ++ m.host.calls ∧
    events.filterMap Event.announced? = recordedWords calls

section Audited

variable {m m' m'' : Machine}

/-- A change of other things. -/
lemma Audited.of_eq (htable : m'.host.table = m.host.table)
    (hrecorded : m'.shell.recorded = m.shell.recorded) (hevents : m'.host.events = m.host.events)
    (hcalls : m'.host.calls = m.host.calls) : Audited m m' :=
  ⟨htable, hrecorded, [], [], by rw [hevents, List.append_nil], hcalls, rfl⟩

lemma Audited.trans (h : Audited m m') (h' : Audited m' m'') : Audited m m'' := by
  obtain ⟨es, cs, hes, hcs, htrail⟩ := h.trail
  obtain ⟨es', cs', hes', hcs', htrail'⟩ := h'.trail
  refine ⟨h'.table.trans h.table, h'.recorded.trans h.recorded, es ++ es', cs' ++ cs, ?_, ?_, ?_⟩
  · rw [hes', hes, List.append_assoc]
  · rw [hcs', hcs, List.append_assoc]
  · rw [List.filterMap_append, htrail, htrail', recordedWords_append]

lemma Idles.audited (h : Idles m m') : Audited m m' := by
  obtain ⟨es, hes, hother⟩ := h.events
  refine ⟨h.table, h.recorded, es, [], hes, h.calls, ?_⟩
  exact List.filterMap_eq_nil_iff.2 fun e he => Event.announced?_eq_none (hother e he)

/-- What `Audited` says, of machines whose commands announce no call. -/
def Auditing (m m' : Machine) : Prop := m.host.table.Modest → Audited m m'

lemma Auditing.trans (h : Auditing m m') (h' : Auditing m' m'') : Auditing m m'' := by
  intro hmodest
  have hfirst := h hmodest
  exact hfirst.trans (h' (by rwa [hfirst.table]))

instance : Std.Refl Auditing := ⟨fun m _ => (Idles.refl m).audited⟩

instance : IsTrans Machine Auditing := ⟨fun _ _ _ => Auditing.trans⟩

lemma audited_answer (m : Machine) {q : Query} (hq : q.IsModest) : Audited m (m.answer q).2 := by
  cases q with
  | setEnvironment name value =>
    simp only [answer, setVariable]
    split <;> exact .of_eq rfl rfl rfl rfl
  | unsetEnvironment name => exact .of_eq rfl rfl rfl rfl
  | clearDefinition name => exact .of_eq rfl rfl rfl rfl
  | record e => exact (m.idles_record hq).audited
  | _ => exact Idles.audited (Idles.answers.answer (by trivial) m)

end Audited

/-! ### What is recorded apart from calls -/

/-- No command is called on the way, and just these events are recorded if the shell records. -/
structure Logs (m : Machine) (es : List Event) (m' : Machine) : Prop where
  recorded : m'.shell.recorded = m.shell.recorded
  calls : m'.host.calls = m.host.calls
  events : m'.host.events = m.host.events ++ if m.shell.recorded then es else []

namespace Logs

variable {m m' m'' : Machine} {es es' : List Event}

lemma of_eq (hrecorded : m'.shell.recorded = m.shell.recorded)
    (hcalls : m'.host.calls = m.host.calls) (hevents : m'.host.events = m.host.events) :
    Logs m [] m' :=
  ⟨hrecorded, hcalls, by rw [hevents, ite_self, List.append_nil]⟩

lemma trans (h : Logs m es m') (h' : Logs m' es' m'') : Logs m (es ++ es') m'' where
  recorded := h'.recorded.trans h.recorded
  calls := h'.calls.trans h.calls
  events := by
    rw [h'.events, h.events, h.recorded]
    split <;> simp

/-- Afterwards nothing is recorded. -/
lemma trans_nil (h : Logs m es m') (h' : Logs m' [] m'') : Logs m es m'' := by
  simpa using h.trans h'

end Logs

lemma Records.logs {m m' : Machine} {es : List Event}
    (h : Records m es m') : Logs m es m' :=
  ⟨by rw [h.shell], h.calls, h.events⟩

end Machine

namespace Interpreter

open Machine

/-! ### Runs -/

/-- The call of a command is recorded, and then it is noted. -/
structure Announced (words : List Bytes) (m n : Machine) : Prop where
  table : n.host.table = m.host.table
  recorded : n.shell.recorded = m.shell.recorded
  events : n.host.events = m.host.events ++ if m.shell.recorded then [.runCommand words] else []
  calls : n.host.calls = ⟨words, n.shell⟩ :: m.host.calls

lemma Announced.of_host {words : List Bytes} {m m₁ n : Machine} (h : Announced words m₁ n)
    (hhost : m₁.host = m.host) (hrecorded : m₁.shell.recorded = m.shell.recorded) :
    Announced words m n where
  table := h.table.trans (by rw [hhost])
  recorded := h.recorded.trans hrecorded
  events := by rw [h.events, hhost, hrecorded]
  calls := by rw [h.calls, hhost]

lemma announced_called (words : List Bytes) (m : Machine) : Announced words m (called words m) := by
  have hrecord := (m.setErrored false).records_record (.runCommand words)
  have herrored := m.idles_setErrored false
  have htable : ((m.setErrored false).record (.runCommand words)).host.table = m.host.table := by
    obtain ⟨_, _, _, _, _, _, _, _, heq, -⟩ :=
      (m.setErrored false).exchange_record (.runCommand words)
    rw [heq]
    exact herrored.table
  refine ⟨htable, ?_, ?_, ?_⟩
  · exact (congrArg Shell.recorded hrecord.shell).trans herrored.recorded
  · exact hrecord.events.trans (by rw [herrored.recorded, host_setErrored])
  · exact congrArg (List.cons _) (hrecord.calls.trans herrored.calls)

lemma Announced.audited {words : List Bytes} {m n : Machine} (h : Announced words m n) :
    Audited m n := by
  refine ⟨h.table, h.recorded, _, [⟨words, n.shell⟩], h.events, h.calls, ?_⟩
  rw [recordedWords, List.reverse_singleton, List.filter_singleton, h.recorded]
  cases m.shell.recorded <;> rfl

lemma audited_rememberScript (path : Bytes) (m : Machine) :
    Audited m (rememberScript path m) := by
  rw [rememberScript]
  split
  · split <;> exact .of_eq rfl rfl rfl rfl
  · exact .of_eq rfl rfl rfl rfl

/-- A routine that announces no call leaves that to the lines of the invocations it starts. -/
lemma auditing_perform {α : Type} {invoke : Invoke} (hinvoke : Conducts (fun _ => Auditing) invoke)
    {r : Routine α} (hr : r.Modest) : ShellM.Maintains Auditing (perform invoke r) :=
  hr.maintains (fun _ m hq _ => audited_answer m hq) (fun _ _ _ _ => hinvoke _ _ _)
    fun _ _ _ _ => ShellM.maintains_bind
      (ShellM.maintains_modify fun m _ => audited_rememberScript _ m) fun _ => hinvoke _ _ _

lemma conduct_auditing : Conduct Idles Auditing fun _ => Auditing where
  steps := steps_idles
  lift h _ := h.audited
  call {_} hinvoke {m m' name words c args v} hfind _ hperform hmodest := by
    have hcalled := (announced_called (name :: words) m).audited
    exact hcalled.trans (auditing_perform hinvoke (hmodest name c hfind args) _ v m' hperform
      (by rwa [hcalled.table]))
  input h := h
  attend a h hmodest := ⟨(h hmodest).table, rfl, (h hmodest).trail⟩
  unread _ h _ := h.audited
  whole {m m₁ n m' definitions defs context outer scope} hopened _ hloop hclosed := by
    obtain ⟨sessions, henter⟩ := enter_eq context scope defs m₁
    obtain ⟨sessions', hleave⟩ := leave_eq outer n
    have hentered : Audited m₁ (enter context scope defs m₁) := by
      rw [henter]
      exact .of_eq rfl rfl rfl rfl
    have hleft : Audited n (leave outer n) := by
      rw [hleave]
      exact .of_eq rfl rfl rfl rfl
    refine Auditing.trans (fun _ => hopened.audited.trans hentered) (hloop.trans ?_)
    exact fun _ => hleft.trans hclosed.audited

/-! ### Lines -/

lemma logs_setErrored (errored : Bool) (m : Machine) : Logs m [] (m.setErrored errored) :=
  .of_eq (m.idles_setErrored errored).recorded (by rw [host_setErrored]) (by rw [host_setErrored])

/-- A diagnostic is written and an event is recorded. -/
lemma logs_report (location : Location) (message : Bytes) (e : Event) (m : Machine) :
    Logs m [e] ((report location message m).record e) :=
  ((records_report location message m).trans (records_record _ e)).logs

lemma logs_detach (rs : Redirects) (location : Location) (m : Machine) :
    Logs m [] (detach rs location m) := by
  have hrestored : Logs m [] { m with shell := { m.shell with
      streams := (rs.restore m.shell.streams).2 } } := .of_eq rfl rfl rfl
  have hclosed : Logs m [] (rs.detach m).2.2 :=
    hrestored.trans (Redirects.records_close (rs.restore m.shell.streams).1 _).logs
  rw [detach]
  split
  · rename_i heq
    rwa [heq] at hclosed
  · rename_i heq
    rw [heq] at hclosed
    exact hclosed.trans (records_report _ _ _).logs

/-- What a line with words and open targets leads to, from the first event that is recorded on. -/
inductive Dispatched (invoke : Invoke) (words : List Bytes) (m m' : Machine) : Prop
  /-- The table has no command of the name, and none is called. -/
  | unknown (hfind : m.host.table.findCommand? (words.headD []) = none)
      (hlogs : Logs m [.unknownCommand words] m')
  /-- The words do not fit the declaration of the command, and none is called. -/
  | rejected {c : Command CommandBody} {f : Argument.Fault}
      (hfind : m.host.table.findCommand? (words.headD []) = some c)
      (hbind : Argument.bind m.host.table.handle c.signature words = .error f)
      (hlogs : Logs m [.invalidInvocation words f.message] m')
  /-- The call is recorded, then the routine of the command is performed, and then it is recorded
  how the call ended. -/
  | called {c : Command CommandBody} {args : Arguments} {n n' : Machine} {v : Verdict}
      (hfind : m.host.table.findCommand? (words.headD []) = some c)
      (hbind : Argument.bind m.host.table.handle c.signature words = .ok args)
      (hcalled : Announced words m n)
      (hperform : perform invoke (c.body args) n = some (v, n'))
      (hnested : Audited n n')
      (hlogs : Logs n' (v.trail words) m')

/-- A call is performed, and what is recorded afterwards says how it ended. -/
lemma logs_callMarked {invoke : Invoke} {c : Command CommandBody} {args : Arguments}
    {words : List Bytes} {location : Location} {m m' : Machine} {u : Unit}
    (hrun : callMarked invoke c args words location m = some (u, m')) :
    ∃ v n, perform invoke (c.body args) (called words m) = some (v, n) ∧
      Logs n (v.trail words) m' := by
  rw [callMarked_apply, call_apply, Option.map_map] at hrun
  obtain ⟨⟨v, n⟩, hperform, heq⟩ := Option.map_eq_some_iff.1 hrun
  refine ⟨v, n, hperform, ?_⟩
  have hfailed : ∀ (f : Failure) (n : Machine), Logs n [.invalidInvocation words f.message]
      (((report location f.message n).record (.invalidInvocation words f.message)).setErrored
        true) := fun f n =>
    (logs_report location f.message _ n).trans_nil (logs_setErrored true _)
  cases v with
  | done =>
    cases heq
    exact .of_eq rfl rfl rfl
  | failed f =>
    cases heq
    exact hfailed f _
  | crashed cause =>
    cases heq
    exact (n.records_record _).logs.trans (hfailed (.plain _) _)

section

variable {invoke : Invoke} (hinvoke : Conducts (fun _ => Auditing) invoke)
include hinvoke

lemma dispatched_of_dispatchOpen {words : List Bytes} {rs rs' : Redirects} {location : Location}
    {m m' : Machine} (hmodest : m.host.table.Modest) (hwords : words ≠ [])
    (hrun : dispatchOpen invoke words rs location m = some (rs', m')) :
    Dispatched invoke words m m' := by
  obtain ⟨name, words, rfl⟩ := List.exists_cons_of_ne_nil hwords
  have herrored := logs_setErrored true m
  have hreport : ∀ (message : Bytes) (e : Event),
      Logs m [e] ((report location message (m.setErrored true)).record e) := fun message e =>
    herrored.trans (logs_report location message e _)
  rcases dispatchOpen_cases hrun with
    ⟨hfind, rfl, rfl⟩ | ⟨c, f, hfind, hbind, rfl, rfl⟩ | ⟨c, args, hfind, hbind, hrun⟩
  · exact .unknown hfind (hreport _ _)
  · exact .rejected hfind hbind (hreport _ _)
  · rw [callAttached_apply] at hrun
    obtain ⟨⟨u, n⟩, hcall, heq⟩ := Option.map_eq_some_iff.1 hrun
    cases heq
    obtain ⟨v, n', hperform, hlogs⟩ := logs_callMarked hcall
    have hcalled := (announced_called (name :: words) (attached rs (m.setErrored true))).of_host
      (m := m) (host_setErrored m true) herrored.recorded
    refine .called hfind hbind hcalled hperform ?_ (hlogs.trans_nil (.of_eq rfl rfl rfl))
    exact auditing_perform hinvoke (hmodest name c hfind args) _ v n' hperform
      (by rwa [hcalled.table])

lemma dispatched_of_dispatch {line : Line} {location : Location} {rs : Redirects}
    {m m₁ m' : Machine} (hmodest : m₁.host.table.Modest) (hwords : line.words ≠ [])
    (hopen : (Redirects.ofList line.redirections).openAll m.resolve m = (none, rs, m₁))
    (hrun : dispatch invoke line location m = some ((), m')) :
    Dispatched invoke line.words m₁ m' := by
  rw [dispatch_apply invoke hopen] at hrun
  obtain ⟨⟨rs', n⟩, hdispatch, heq⟩ := Option.map_eq_some_iff.1 hrun
  cases heq
  have hdetached := logs_detach rs' location n
  cases dispatched_of_dispatchOpen hinvoke hmodest hwords hdispatch with
  | unknown hfind hlogs => exact .unknown hfind (hlogs.trans_nil hdetached)
  | rejected hfind hbind hlogs => exact .rejected hfind hbind (hlogs.trans_nil hdetached)
  | called hfind hbind hcalled hperform hnested hlogs =>
    exact .called hfind hbind hcalled hperform hnested (hlogs.trans_nil hdetached)

end

end Interpreter

namespace Machine

open Interpreter

/-- **The audit trail of commands is complete and exact.**  However a script, the console or a
single line is run with commands that announce no call by themselves, the recorded
announcements are, in order, the words of the calls by shells that record.

A line with words whose targets open records first of all, after what was asked of files to open
them, that its command is not known, or that its words do not fit, and then no command is
called; or it announces the call right before the routine of the command is performed.  After
everything that was recorded on the way, a call that failed or crashed is recorded as an invalid
invocation with the words of the line, once, and a call that was done is not. -/
theorem run_records_calls {m : Machine} (hmodest : m.host.table.Modest) (fuel : Nat) :
    (∀ {context : Option Context} {definitions : Bytes} {o : Outcome} {m' : Machine},
      ((∃ path, m.load fuel context path definitions = some (o, m')) ∨
        ∃ line, m.runLine fuel context line definitions = some (o, m')) →
      ∃ events calls, m'.host.events = m.host.events ++ events ∧
        m'.host.calls = calls ++ m.host.calls ∧
        events.filterMap Event.announced? = recordedWords calls) ∧
    ∀ {line : Line} {location : Location} {rs : Redirects} {m₁ m' : Machine}, line.words ≠ [] →
      (Redirects.ofList line.redirections).openAll m.resolve m = (none, rs, m₁) →
      dispatch (invoke fuel) line location m = some ((), m') →
      Adds Event.IsAccess m m₁ ∧ m₁.host.calls = m.host.calls ∧
        Dispatched (invoke fuel) line.words m₁ m' := by
  have hinvoke := conduct_auditing.invoke fuel
  constructor
  · intro context definitions o m' hrun
    suffices h : Audited m m' from h.trail
    rcases hrun with ⟨path, hrun⟩ | ⟨line, hrun⟩
    · obtain ⟨_, _, hremember, hrun⟩ := ShellM.bind_eq_some hrun
      obtain rfl := ShellM.modify_eq_some hremember
      have hremembered := audited_rememberScript path m
      exact hremembered.trans (hinvoke _ _ _ _ o m' hrun (by rwa [hremembered.table]))
    · exact hinvoke _ _ _ _ o m' hrun hmodest
  · intro line location rs m₁ m' hwords hopen hrun
    have hidles := Idles.inputOutput.openAll m.resolve (.ofList line.redirections) m
    have hadds := Adds.inputOutput.openAll m.resolve (.ofList line.redirections) m
    rw [hopen] at hidles hadds
    refine ⟨hadds, hidles.calls, dispatched_of_dispatch hinvoke ?_ hwords hopen hrun⟩
    rwa [hidles.table]

/-- A line whose command runs a line whose command runs a line, and a line whose command fails. -/
theorem run_records_calls_nested_lines :
    let m : Machine := { host := { table := CommandTable.standard } }
    let line : Line := ⟨["epicsEnvSet", "=", "1"], []⟩
    (∃ o m', m.runLine 6 none "iocshCmd 'iocshRun on'" [] = some (o, m') ∧
      m'.host.events.filterMap Event.announced? =
        ([["iocshCmd", "iocshRun on"], ["iocshRun", "on"], ["on"]] : List (List Bytes))) ∧
      ∃ m', dispatch (invoke 1) line {} m = some ((), m') ∧
        m'.host.events.map Event.kind = [.runCommand, .invalidInvocation] ∧
        Dispatched (invoke 1) line.words m m' := by
  intro m line
  have haudit := run_records_calls (m := m) CommandTable.modest_standard
  constructor
  · have hruns : (m.runLine 6 none "iocshCmd 'iocshRun on'" []).any (fun r =>
        recordedWords r.2.host.calls ==
          ([["iocshCmd", "iocshRun on"], ["iocshRun", "on"], ["on"]] : List (List Bytes))) =
            true := by
      decide +kernel
    obtain ⟨⟨o, m'⟩, hrun, hwords⟩ := (Option.any_eq_true _ _).1 hruns
    obtain ⟨events, calls, hevents, hcalls, htrail⟩ := (haudit 6).1 (.inr ⟨_, hrun⟩)
    rw [List.append_nil] at hcalls
    exact ⟨o, m', hrun, by rw [hevents, ← beq_iff_eq.1 hwords, hcalls]; exact htrail⟩
  · have hruns : (dispatch (invoke 1) line {} m).any (fun r =>
        r.2.host.events.map Event.kind == [.runCommand, .invalidInvocation]) = true := by
      decide +kernel
    obtain ⟨⟨u, m'⟩, hrun, hkinds⟩ := (Option.any_eq_true _ _).1 hruns
    exact ⟨m', hrun, beq_iff_eq.1 hkinds, ((haudit 1).2 (by decide) rfl hrun).2.2⟩

end Machine

end ConsoleShell
