/-
Nested invocations and the scopes around them.

A line can start an invocation in four ways: it can redirect its input from a script without
having words of its own, or it can call one of three commands that run a script, a line, or a
line with definitions.  Whatever the invocation does, the scopes around the line come back as
they were, and in the scope of the line itself nothing changes but the mark that the line
failed, which depends on the outcome of the invocation in a way of its own for each kind of
line.
-/
import ConsoleShell.Proofs.Shell.Invocation

namespace ConsoleShell

namespace Interpreter

open Machine

/-! ### Actions that start one invocation -/

/-- However invocations behave, the action starts exactly one on `m`: it starts it on the
machine `n` and goes on from its outcome by `finish`. -/
def StartsOne {α : Type} (x : Invoke → ShellM FileStore α) (m : Machine) (context : Option Context)
    (source : Source) (definitions : Bytes) (n : Machine)
    (finish : Outcome → Machine → α × Machine) : Prop :=
  ∀ invoke, x invoke m = (invoke context source definitions n).map fun p => finish p.1 p.2

namespace StartsOne

variable {α β : Type} {x : Invoke → ShellM FileStore α} {m n : Machine} {context : Option Context}
  {source : Source} {definitions : Bytes} {finish : Outcome → Machine → α × Machine}

lemma invoke (m : Machine) (context : Option Context) (source : Source) (definitions : Bytes) :
    StartsOne (fun invoke => invoke context source definitions) m context source definitions m
      fun o n => (o, n) := by
  intro invoke
  simp

/-- Something that starts nothing comes first. -/
lemma of_first {y : ShellM FileStore β} {f : β → Invoke → ShellM FileStore α} {b : β} {m₁ : Machine}
    (hy : y m = some (b, m₁)) (h : StartsOne (f b) m₁ context source definitions n finish) :
    StartsOne (fun invoke => y >>= fun b => f b invoke) m context source definitions n finish := by
  intro invoke
  show (y >>= fun b => f b invoke) m = _
  rw [ShellM.bind_apply, hy]
  exact h invoke

/-- Something that starts nothing comes afterwards. -/
lemma and_then {f : α → Invoke → ShellM FileStore β} {g : Outcome → Machine → β × Machine}
    (h : StartsOne x m context source definitions n finish)
    (hf : ∀ invoke o n', f (finish o n').1 invoke (finish o n').2 = some (g o n')) :
    StartsOne (fun invoke => x invoke >>= fun a => f a invoke) m context source definitions n
      g := by
  intro invoke
  show (x invoke >>= fun a => f a invoke) m = _
  rw [ShellM.bind_apply, h invoke]
  cases invoke context source definitions n with
  | none => rfl
  | some p => exact hf invoke p.1 p.2

end StartsOne

/-! ### Commands that run scripts and lines -/

/-- Marks the line as failed or leaves the mark. -/
def marked (failed : Bool) (m : Machine) : Machine := if failed then m.setErrored true else m

lemma perform_markFailed (invoke : Invoke) (failed : Bool) (m : Machine) :
    perform invoke (Commands.markFailed failed) m = some (.done, marked failed m) := by
  cases failed with
  | false => rfl
  | true => rfl

/-- Runs a script or a line and marks the line as failed as the outcome says. -/
lemma startsOne_perform_run (line definitions : Bytes) (failed : Outcome → Bool) (m : Machine) :
    StartsOne (fun invoke => perform invoke
        (.run line definitions fun o => Commands.markFailed (failed o)))
      m m.shell.context (.line line) definitions m fun o n => (.done, marked (failed o) n) := by
  have hrun := StartsOne.invoke m m.shell.context (.line line) definitions
  exact .of_first (y := get) rfl (hrun.and_then fun invoke o n =>
    perform_markFailed invoke (failed o) n)

lemma startsOne_perform_load (path definitions : Bytes) (failed : Outcome → Bool) (m : Machine) :
    StartsOne (fun invoke => perform invoke
        (.load path definitions fun o => Commands.markFailed (failed o)))
      m m.shell.context (.ofPath path) definitions (rememberScript path m)
      fun o n => (.done, marked (failed o) n) := by
  have hload : StartsOne (fun invoke => load invoke m.shell.context path definitions) m
      m.shell.context (.ofPath path) definitions (rememberScript path m) fun o n => (o, n) :=
    .of_first (y := modify (rememberScript path)) rfl (.invoke _ _ _ _)
  exact .of_first (y := get) rfl (hload.and_then fun invoke o n =>
    perform_markFailed invoke (failed o) n)

/-- A command whose body starts one invocation and then is done, called for a line with open
targets. -/
lemma startsOne_dispatchOpen {name : Bytes} {words : List Bytes} {rs : Redirects}
    {m n : Machine} {c : Command CommandBody} {args : Arguments}
    {context : Option Context} {source : Source} {definitions : Bytes}
    {finish : Outcome → Machine → Machine}
    (hfind : m.host.table.findCommand? name = some c)
    (hbind : Argument.bind m.host.table.handle c.signature (name :: words) = .ok args)
    (hbody : StartsOne (fun invoke => perform invoke (c.body args))
      (called (name :: words) (attached rs (m.setErrored true))) context source definitions n
      fun o n' => (.done, finish o n')) (location : Location) :
    StartsOne (fun invoke => dispatchOpen invoke (name :: words) rs location) m context source
      definitions n fun o n' => ((rs.attach (m.setErrored true)).1,
        reattached (m.setErrored true).shell.attachments (finish o n')) := by
  have hcall : StartsOne (fun invoke => call invoke c.body args)
      (called (name :: words) (attached rs (m.setErrored true))) context source definitions n
      fun o n' => (none, finish o n') :=
    hbody.and_then fun invoke o n' => rfl
  have hmarked : StartsOne (fun invoke => callMarked invoke c args (name :: words) location)
      (attached rs (m.setErrored true)) context source definitions n
      fun o n' => ((), finish o n') :=
    .of_first (y := modify (called (name :: words))) rfl
      (hcall.and_then fun invoke o n' => rfl)
  intro invoke
  have hrun : callMarked invoke c args (name :: words) location _ = _ := hmarked invoke
  show dispatchOpen invoke (name :: words) rs location m = _
  rw [dispatchOpen_apply invoke hfind hbind, callAttached_apply, hrun, Option.map_map]
  rfl

/-! ### Lines that start an invocation -/

/-- What a line does to start an invocation. -/
inductive Starter where
  /-- It has no words and redirects its input from a script. -/
  | input
  /-- Its command runs a script. -/
  | script
  /-- Its command runs a line. -/
  | line
  deriving DecidableEq, Repr

/-- The mark of the line after an invocation, from the mark before it and the outcome. -/
def Starter.mark : Starter → Bool → Outcome → Bool
  | .input, before, o => before || (o.failure.isSome || o.errored)
  | .script, _, o => o.failure.isSome || o.errored
  | .line, _, o => o.failure.isSome

/-- All targets of the redirections can be opened. -/
def Opens (m : Machine) (rs : Redirects) : Prop := ∃ rs' n, rs.openAll m.resolve m = (none, rs', n)

/-- The line calls a command with a body and arguments: it does not leave the invocation, its
targets open, and its words fit the declaration of the command. -/
structure Calls (m : Machine) (line : Line) (body : CommandBody) (args : Arguments) : Prop where
  stays : line.words.head? ≠ some "exit"
  opens : Opens m (Redirects.ofList line.redirections)
  command : ∃ name words c, line.words = name :: words ∧
    m.host.table.findCommand? name = some c ∧ c.body = body ∧
    Argument.bind m.host.table.handle c.signature line.words = .ok args

/-- A line starts an invocation: how it does, what is run, and with which definitions. -/
inductive Starts (m : Machine) (line : Line) : Starter → Source → Bytes → Prop
  | input {r : Redirection} (hwords : line.words = [])
      (hinput : (Redirects.ofList line.redirections).input? = some r) (hname : r.name ≠ [])
      (hopens : Opens m ((Redirects.ofList line.redirections).without 0)) :
      Starts m line .input (.ofPath r.name) []
  | load {args : Arguments} (hcalls : Calls m line Commands.loadScript args) :
      Starts m line .script (.ofPath (args.string 0).1) (args.string 1).1
  | run {args : Arguments} {text : Bytes} (hcalls : Calls m line Commands.runLine args)
      (htext : args.string? 0 = some text) : Starts m line .line (.line text) []
  | runWithDefinitions {args : Arguments} {text : Bytes}
      (hcalls : Calls m line Commands.runWithDefinitions args)
      (htext : args.string? 0 = some text) :
      Starts m line .line (.line text) (args.string 1).1

/-! ### The outcome of an invocation -/

/-- How an invocation comes to its outcome.  It cannot be set up; or its loop ends, and the
outcome has the mark of the scope that the invocation had on top of those around it. -/
inductive Concludes (invoke : Invoke) (fuel : Nat) (context : Option Context) (source : Source)
    (definitions : Bytes) (n : Machine) : Outcome → Prop
  | unopened {f : Failure} {n₁ : Machine} (hopen : openSource source n = (.error f, n₁)) :
      Concludes invoke fuel context source definitions n ⟨true, some f⟩
  | malformed {reader : Reader} {n₁ : Machine} {f : DefinitionList.Fault}
      (hopen : openSource source n = (.ok reader, n₁))
      (hparse : DefinitionList.parse definitions = .error f) :
      Concludes invoke fuel context source definitions n
        ⟨true, some (.setup .malformed f.message)⟩
  | ended {reader reader' : Reader} {n₁ n₂ : Machine} {defs : List Definition}
      {failure : Option Failure} {scope : Scope}
      (hopen : openSource source n = (.ok reader, n₁))
      (hparse : DefinitionList.parse definitions = .ok defs)
      (hloop : loop readLine invoke context source.isScript fuel
        { reader, location := { file := source.label } }
        (enter context source.scope defs n₁) = some ((failure, reader'), n₂))
      (hscope : n₂.shell.scopes = scope :: n.shell.scopes) :
      Concludes invoke fuel context source definitions n ⟨scope.errored, failure⟩

lemma concludes_of_invocation {invoke : Invoke} (hinvoke : Restoring invoke) {fuel : Nat}
    {context : Option Context} {source : Source} {definitions : Bytes} {n n' : Machine}
    {o : Outcome} (h : invocation invoke fuel context source definitions n = some (o, n')) :
    Concludes invoke fuel context source definitions n o := by
  rcases invocation_cases h with ⟨f, hopen, rfl⟩ | ⟨reader, n₁, f, hopen, hparse, rfl, -⟩ |
    ⟨reader, n₁, defs, ⟨⟨failure, reader'⟩, n₂⟩, hopen, hparse, hloop, rfl, -⟩
  · exact .unopened hopen
  · exact .malformed hopen hparse
  -- the loop keeps the scope that was entered on top of those around it
  have hread : ∀ r m, Keeps m (readLine r m).2.2 := Keeps.answers.readLine
  have hkeeps := maintains_loop hinvoke hread _ _ _ _ _ _ _ hloop
  obtain ⟨sessions, henter⟩ := enter_eq context source.scope defs n₁
  have hopened : n₁.shell.scopes = n.shell.scopes := by
    have hscopes := (Exchange.inputOutput.openSource source n).restores.scopes
    rwa [hopen] at hscopes
  have houter : n₂.shell.scopes.tail = n.shell.scopes := by
    rw [hkeeps.outer, henter, ← hopened]
    rfl
  have hne : n₂.shell.scopes ≠ [] := by
    rw [ne_eq, hkeeps.scopes_eq_nil_iff, henter]
    simp
  obtain ⟨scope, outer, hcons⟩ := List.exists_cons_of_ne_nil hne
  have hscope : n₂.shell.scopes = scope :: n.shell.scopes := by
    rw [hcons, ← houter, hcons, List.tail_cons]
  have herrored : n₂.isErrored = scope.errored := by
    rw [isErrored, hscope]
    rfl
  rw [conclusion, herrored]
  exact .ended hopen hparse hloop hscope

/-! ### Scopes around a line -/

section Scopes

variable {m : Machine} {s : Scope} {rest : List Scope}

lemma scopes_openAll {rs rs' : Redirects} {n : Machine} {fault : Option RedirectionFault}
    (h : rs.openAll m.resolve m = (fault, rs', n)) : n.shell.scopes = m.shell.scopes :=
  (exchange_openAll h).restores.scopes

lemma scopes_detach (rs : Redirects) (location : Location) (m : Machine) :
    (detach rs location m).shell.scopes = m.shell.scopes := by
  have hclosed : (rs.detach m).2.2.shell.scopes = m.shell.scopes :=
    (Exchange.inputOutput.close _ _).restores.scopes
  rw [detach]
  split
  · rename_i heq
    rwa [heq] at hclosed
  · rename_i heq
    rw [heq] at hclosed
    rw [(Exchange.inputOutput.report _ _ _).restores.scopes, hclosed]

lemma scopes_fail (h : m.shell.scopes = s :: rest) (location : Location) (message : Bytes) :
    (fail location message m).shell.scopes = { s with errored := true } :: rest := by
  refine scopes_setErrored ?_ true
  rw [(Exchange.inputOutput.report _ _ _).restores.scopes, h]

lemma scopes_called (h : m.shell.scopes = s :: rest) (words : List Bytes) :
    (called words m).shell.scopes = { s with errored := false } :: rest := by
  show ((m.setErrored false).record (.runCommand words)).shell.scopes = _
  rw [(exchange_record _ _).restores.scopes, scopes_setErrored h]

lemma scopes_marked (h : m.shell.scopes = s :: rest) (failed : Bool) :
    (marked failed m).shell.scopes = { s with errored := s.errored || failed } :: rest := by
  cases failed with
  | false => rw [Bool.or_false]; exact h
  | true => rw [Bool.or_true]; exact scopes_setErrored h true

end Scopes

/-! ### What lines that start an invocation come to -/

/-- A line whose command starts one invocation and then is done. -/
lemma startsOne_handleSplit {line : Line} {name : Bytes} {words : List Bytes} {rs : Redirects}
    {m m₁ n : Machine} {c : Command CommandBody} {args : Arguments}
    {inner : Option Context} {source : Source} {definitions : Bytes}
    {finish : Outcome → Machine → Machine} (hstays : line.words.head? ≠ some "exit")
    (hwords : line.words = name :: words)
    (hopen : (Redirects.ofList line.redirections).openAll m.resolve m = (none, rs, m₁))
    (hfind : m₁.host.table.findCommand? name = some c)
    (hbind : Argument.bind m₁.host.table.handle c.signature (name :: words) = .ok args)
    (hbody : StartsOne (fun invoke => perform invoke (c.body args))
      (called (name :: words) (attached rs (m₁.setErrored true))) inner source definitions n
      fun o n' => (.done, finish o n')) (context : Option Context) (location : Location) :
    StartsOne (fun invoke => handleSplit invoke context line location) m inner source
      definitions n fun o n' => (.goOn, detach (rs.attach (m₁.setErrored true)).1 location
        (reattached (m₁.setErrored true).shell.attachments (finish o n'))) := by
  have hdispatchOpen := startsOne_dispatchOpen hfind hbind hbody location
  have hdispatch : StartsOne (fun invoke => dispatch invoke line location) m inner source
      definitions n fun o n' => ((), detach (rs.attach (m₁.setErrored true)).1 location
        (reattached (m₁.setErrored true).shell.attachments (finish o n'))) := by
    refine .of_first (openTargets_of_ok hopen location) ?_
    rw [hwords]
    exact hdispatchOpen.and_then fun invoke o n' => rfl
  intro invoke
  show handleSplit invoke context line location m = _
  have hrun : dispatch invoke line location m = _ := hdispatch invoke
  rw [handleSplit_command (by simp [hwords]) hstays, hrun, Option.map_map]
  rfl

/-- Opening targets leaves the table alone. -/
lemma table_openAll {rs rs' : Redirects} {m n : Machine} {fault : Option RedirectionFault}
    (h : rs.openAll m.resolve m = (fault, rs', n)) : n.host.table = m.host.table := by
  obtain ⟨_, _, _, _, _, _, _, _, rfl, -⟩ := exchange_openAll h
  rfl

/-- A command that runs a script or a line and then marks its line. -/
lemma contained_of_calls {m : Machine} {s : Scope} {rest : List Scope}
    (hscopes : m.shell.scopes = s :: rest) {line : Line} {body : CommandBody} {args : Arguments}
    (hcalls : Calls m line body args) {source : Source} {definitions : Bytes}
    (failed : Outcome → Bool)
    (hbody : ∀ n : Machine, ∃ n₁, n₁.shell.scopes = n.shell.scopes ∧
      StartsOne (fun invoke => perform invoke (body args)) n n.shell.context source definitions
        n₁ fun o n' => (.done, marked (failed o) n'))
    (context : Option Context) (location : Location) :
    ∃ (inner : Option Context) (n : Machine) (finish : Outcome → Machine → Machine),
      StartsOne (fun invoke => handleSplit invoke context line location) m inner source
        definitions n (fun o n' => (.goOn, finish o n')) ∧
      ∀ o n', n'.shell.scopes = n.shell.scopes →
        (finish o n').shell.scopes = { s with errored := failed o } :: rest := by
  obtain ⟨rs, m₁, hopen⟩ := hcalls.opens
  obtain ⟨name, words, c, hwords, hfind, rfl, hbind⟩ := hcalls.command
  have hm₁ := scopes_setErrored ((scopes_openAll hopen).trans hscopes) true
  have hattached : (attached rs (m₁.setErrored true)).shell.scopes = _ := hm₁
  have hcalled := scopes_called hattached (name :: words)
  obtain ⟨n, hn, hstarts⟩ := hbody (called (name :: words) (attached rs (m₁.setErrored true)))
  rw [← table_openAll hopen] at hfind hbind
  rw [hwords] at hbind
  refine ⟨_, n, _, startsOne_handleSplit hcalls.stays hwords hopen hfind hbind hstarts context
    location, fun o n' hn' => ?_⟩
  rw [scopes_detach]
  show (marked (failed o) n').shell.scopes = _
  rw [scopes_marked ((hn'.trans hn).trans hcalled)]
  rfl

/-- A line without words that redirects its input, and whose other targets can be opened, starts
what the name of the input stands for. -/
lemma startsOne_of_input {m m₁ : Machine} {line : Line} {r : Redirection} {rs : Redirects}
    (hwords : line.words = []) (hinput : (Redirects.ofList line.redirections).input? = some r)
    (hname : r.name ≠ []) (hopen : ((Redirects.ofList line.redirections).without 0).openAll
      m.resolve m = (none, rs, m₁)) (context : Option Context) (location : Location) :
    StartsOne (fun invoke => handleSplit invoke context line location) m context
      (.ofPath r.name) [] (rs.attach m₁).2 fun o n' => (.goOn, detach (rs.attach m₁).1 location
        (marked (o.errored || o.failure.isSome) n')) := by
  have hrun : StartsOne (fun invoke => runMarked invoke context (.ofPath r.name))
      (rs.attach m₁).2 context (.ofPath r.name) [] (rs.attach m₁).2
      fun o n' => ((), marked (o.errored || o.failure.isSome) n') := by
    refine (StartsOne.invoke _ _ _ _).and_then fun invoke o n' => ?_
    cases o.errored || o.failure.isSome <;> rfl
  have hnested : StartsOne (fun invoke => nested invoke context r.name
      ((Redirects.ofList line.redirections).without 0) location) m context (.ofPath r.name) []
      (rs.attach m₁).2 fun o n' => ((), detach (rs.attach m₁).1 location
        (marked (o.errored || o.failure.isSome) n')) := by
    intro invoke
    have hrun' : runMarked invoke context (.ofPath r.name) _ = _ := hrun invoke
    show nested invoke context r.name _ location m = _
    rw [nested_apply invoke hname hopen, hrun', Option.map_map]
    rfl
  intro invoke
  show handleSplit invoke context line location m = _
  have hrun : nested invoke context r.name _ location m = _ := hnested invoke
  rw [handleSplit_script hwords hinput, hrun, Option.map_map]
  rfl

/-- A line without words that redirects its input from a script. -/
lemma contained_of_input {m : Machine} {s : Scope} {rest : List Scope}
    (hscopes : m.shell.scopes = s :: rest) {line : Line} {r : Redirection}
    (hwords : line.words = []) (hinput : (Redirects.ofList line.redirections).input? = some r)
    (hname : r.name ≠ []) (hopens : Opens m ((Redirects.ofList line.redirections).without 0))
    (context : Option Context) (location : Location) :
    ∃ (n : Machine) (finish : Outcome → Machine → Machine),
      StartsOne (fun invoke => handleSplit invoke context line location) m context
        (.ofPath r.name) [] n (fun o n' => (.goOn, finish o n')) ∧
      ∀ o n', n'.shell.scopes = n.shell.scopes → (finish o n').shell.scopes =
        { s with errored := s.errored || (o.errored || o.failure.isSome) } :: rest := by
  obtain ⟨rs, m₁, hopen⟩ := hopens
  refine ⟨_, _, startsOne_of_input hwords hinput hname hopen context location,
    fun o n' hn' => ?_⟩
  rw [scopes_detach]
  refine scopes_marked ?_ _
  rw [hn']
  exact (scopes_openAll hopen).trans hscopes

/-- **Nested invocations are contained.**  Whatever an invocation does that a line starts, the
scopes around the line's own are as they were, and the line's own scope differs in its mark
alone.  The mark is that of `Starter.mark`: a line that redirects its input keeps the mark that
it had and adds whether the invocation failed or ended with a failed line; a line whose command
runs a script has just the latter; and a line whose command runs a line has whether that failed.
A line that redirects its input from a script without a name, or whose other targets cannot be
opened, starts nothing and is marked. -/
theorem nested_invocations_are_contained {m : Machine} {s : Scope} {rest : List Scope}
    (hscopes : m.shell.scopes = s :: rest) (line : Line) (context : Option Context)
    (location : Location) :
    (∀ starter source definitions, Starts m line starter source definitions →
      ∃ (inner : Option Context) (n : Machine) (finish : Outcome → Machine → Machine),
        StartsOne (fun invoke => handleSplit invoke context line location) m inner source
          definitions n (fun o n' => (.goOn, finish o n')) ∧
        ∀ depth o n', invoke (depth + 1) inner source definitions n = some (o, n') →
          Concludes (invoke depth) depth inner source definitions n o ∧
          (finish o n').shell.scopes =
            { s with errored := starter.mark s.errored o } :: rest) ∧
    ∀ r, line.words = [] → (Redirects.ofList line.redirections).input? = some r →
      (r.name = [] ∨ ¬ Opens m ((Redirects.ofList line.redirections).without 0)) →
      ∃ m', (∀ invoke, handleSplit invoke context line location m = some (.goOn, m')) ∧
        m'.shell.scopes = { s with errored := true } :: rest := by
  constructor
  · intro starter source definitions hstarts
    -- what every kind of line has in common, once its mark is known
    suffices h : ∃ (inner : Option Context) (n : Machine) (finish : Outcome → Machine → Machine),
        StartsOne (fun invoke => handleSplit invoke context line location) m inner source
          definitions n (fun o n' => (.goOn, finish o n')) ∧
        ∀ o n', n'.shell.scopes = n.shell.scopes → (finish o n').shell.scopes =
          { s with errored := starter.mark s.errored o } :: rest by
      obtain ⟨inner, n, finish, hone, hfinish⟩ := h
      refine ⟨inner, n, finish, hone, fun depth o n' hrun => ⟨?_, hfinish o n' ?_⟩⟩
      · exact concludes_of_invocation (restoring_invoke depth) hrun
      · exact (restoring_invoke (depth + 1) inner source definitions n o n' hrun).scopes
    cases hstarts with
    | input hwords hinput hname hopens =>
      obtain ⟨n, finish, hone, hfinish⟩ :=
        contained_of_input hscopes hwords hinput hname hopens context location
      refine ⟨context, n, finish, hone, fun o n' hn' => ?_⟩
      rw [hfinish o n' hn', Starter.mark, Bool.or_comm o.errored]
    | @load args hcalls =>
      have hload := contained_of_calls hscopes hcalls (fun o => o.errored || o.failure.isSome)
        (fun n => ⟨rememberScript (args.string 0).1 n, (restores_rememberScript _ n).scopes,
          startsOne_perform_load _ _ _ n⟩) context location
      simpa only [Starter.mark, Bool.or_comm] using hload
    | @run args text hcalls htext =>
      have hbody : Commands.runLine args =
          .run text [] fun o => Commands.markFailed o.failure.isSome := by
        simp only [Commands.runLine, htext]
      refine contained_of_calls hscopes hcalls (fun o => o.failure.isSome)
        (fun n => ⟨n, rfl, ?_⟩) context location
      rw [hbody]
      exact startsOne_perform_run text [] _ n
    | @runWithDefinitions args text hcalls htext =>
      have hbody : Commands.runWithDefinitions args = .run text (args.string 1).1
          fun o => Commands.markFailed o.failure.isSome := by
        simp only [Commands.runWithDefinitions, htext]
      refine contained_of_calls hscopes hcalls (fun o => o.failure.isSome)
        (fun n => ⟨n, rfl, ?_⟩) context location
      rw [hbody]
      exact startsOne_perform_run text _ _ n
  · intro r hwords hinput hfails
    by_cases hname : r.name = []
    · refine ⟨_, fun invoke => ?_,
        scopes_fail hscopes location (RedirectionFault.message ⟨[], .notExist⟩)⟩
      rw [handleSplit_script hwords hinput, hname, nested_nameless]
      rfl
    · have hclosed := hfails.resolve_left hname
      obtain ⟨f, rs, n, hopen⟩ : ∃ f rs n, ((Redirects.ofList line.redirections).without 0).openAll
          m.resolve m = (some f, rs, n) := by
        rcases hall : ((Redirects.ofList line.redirections).without 0).openAll m.resolve m with
          ⟨_ | f, rs, n⟩
        · exact absurd ⟨rs, n, hall⟩ hclosed
        · exact ⟨f, rs, n, rfl⟩
      refine ⟨_, fun invoke => ?_,
        scopes_fail ((scopes_openAll hopen).trans hscopes) location f.message⟩
      rw [handleSplit_script hwords hinput, nested_refused invoke hname hopen]
      rfl

/-- A script that changes its policy and fails in its last line, started in a scope with another
policy. -/
theorem nested_invocations_are_contained_script :
    let m : Machine :=
      { shell := { scopes := [{ policy := .stop }, {}], definitions := some ⟨[], [[], []]⟩ }
        host := { table := CommandTable.control
                  store := { entries := [("/a", .file "on error wait 1\nno"),
                    ("/", .directory)] } } }
    let line : Line := ⟨["iocshLoad", "a"], []⟩
    Starts m line .script (.ofPath "a") [] ∧
      ∃ (o : Outcome) (m' : Machine), handleSplit (invoke 4) none line {} m = some (.goOn, m') ∧
        m'.shell.scopes =
          [{ policy := .stop, errored := o.failure.isSome || o.errored }, {}] ∧
        m'.isErrored = true := by
  intro m line
  have hcalls : Calls m line Commands.loadScript [.string "a" true, .string [] false] :=
    { stays := by decide
      opens := ⟨_, _, rfl⟩
      command := ⟨_, _, _, rfl, rfl, rfl, rfl⟩ }
  have hstarts : Starts m line .script (.ofPath "a") [] := .load hcalls
  obtain ⟨inner, n, finish, hone, hfinish⟩ :=
    (nested_invocations_are_contained rfl line none {}).1 _ _ _ hstarts
  have hruns : (handleSplit (invoke 4) none line {} m).any (fun p => p.2.isErrored) = true := by
    decide +kernel
  obtain ⟨⟨c, m'⟩, hrun, herrored⟩ := (Option.any_eq_true _ _).1 hruns
  have hrun' := hrun
  rw [show handleSplit (invoke 4) none line {} m = _ from hone (invoke 4)] at hrun'
  obtain ⟨⟨o, n'⟩, hinvoke, heq⟩ := Option.map_eq_some_iff.1 hrun'
  cases heq
  exact ⟨hstarts, o, _, hrun, (hfinish 3 o n' hinvoke).2, herrored⟩

end Interpreter

end ConsoleShell
