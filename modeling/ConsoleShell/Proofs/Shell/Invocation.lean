/-
What an invocation leaves as it found it.

An invocation may fail to start, end with its source, be left by a line, be ended by its
policy or be cancelled, and the invocations that its lines start may do the same.  On each of
these ways the redirections of every line are taken back before the next line is read, and the
scope, the context and the definitions of the invocation are taken back before it returns.
The argument follows the interpreter: lines stay inside the frame `Keeps` if the invocations
inside them restore the shell, and an invocation restores the shell if its lines stay inside
the frame, so that invocations restore the shell by induction on how deeply they nest.
-/
import ConsoleShell.Commands.Standard
import ConsoleShell.Proofs.Shell.Dispatch
import ConsoleShell.Proofs.Shell.Rounds

namespace ConsoleShell

variable {σ : Type}

namespace Machine

/-! ### Restoring a shell -/

/-- What an invocation as a whole leaves alone: the frame of its lines, and every scope.  The
commands that are called meanwhile find definitions even if none were there before. -/
structure Restores (m m' : Machine σ) : Prop extends Keeps m m' where
  scopes : m'.shell.scopes = m.shell.scopes
  ready : ∃ new, m'.host.calls = new ++ m.host.calls ∧ (m.Balanced → ∀ c ∈ new, c.Ready)

namespace Restores

variable {m m' m'' : Machine σ}

/-- A change inside the frame that calls no command and leaves the scopes alone. -/
lemma of_keeps (h : Keeps m m') (hscopes : m'.shell.scopes = m.shell.scopes)
    (hcalls : m'.host.calls = m.host.calls) : Restores m m' where
  toKeeps := h
  scopes := hscopes
  ready := ⟨[], hcalls, by simp⟩

lemma refl (m : Machine σ) : Restores m m := of_keeps (.refl m) rfl rfl

lemma trans (h : Restores m m') (h' : Restores m' m'') : Restores m m'' where
  toKeeps := h.toKeeps.trans h'.toKeeps
  scopes := h'.scopes.trans h.scopes
  ready := by
    obtain ⟨new, hnew, hready⟩ := h.ready
    obtain ⟨new', hnew', hready'⟩ := h'.ready
    refine ⟨new' ++ new, by rw [hnew', hnew, List.append_assoc], fun hb c hc => ?_⟩
    rcases List.mem_append.1 hc with hc | hc
    · exact hready' (h.balanced hb) c hc
    · exact hready hb c hc

instance : Std.Refl (@Restores σ) := ⟨refl⟩

instance : IsTrans (Machine σ) Restores := ⟨fun _ _ _ => trans⟩

/-- In balance, the scopes say how many scopes the definitions have. -/
lemma depth (h : Restores m m') (hb : m.Balanced) : m'.shell.depth = m.shell.depth := by
  have hshell : m.shell.depth = _ := hb.1
  have hshell' : m'.shell.depth = _ := (h.balanced hb).1
  rw [hshell, hshell', h.scopes]

end Restores

lemma Exchange.restores {m m' : Machine σ} (h : Exchange m m') : Restores m m' := by
  refine .of_keeps h.keeps ?_ ?_
  all_goals
    obtain ⟨_, _, _, _, _, _, _, _, rfl, -⟩ := h
    rfl

/-- Whether the targets of a line can be opened or not, trying to is an exchange. -/
lemma exchange_openAll [FileBase σ] {rs rs' : Redirects} {m n : Machine σ}
    {fault : Option RedirectionFault} (h : rs.openAll m.resolve m = (fault, rs', n)) :
    Exchange m n := by
  have hexchange := Exchange.inputOutput.openAll m.resolve rs m
  rwa [h] at hexchange

/-! ### Streams and redirections of a line -/

/-- A frame inside which other streams are in force is a frame for the streams outside. -/
lemma Keeps.outside_streams {m n : Machine σ} {streams : Streams Endpoint}
    (h : Keeps { m with shell := { m.shell with streams } } n) :
    Keeps m { n with shell := { n.shell with streams := m.shell.streams } } where
  context := h.context
  attachments := h.attachments
  streams := rfl
  outer := h.outer
  interactive := h.interactive
  cancelled := h.cancelled
  balanced := h.balanced
  calls := h.calls

/-- The same for the redirections of a line. -/
lemma Keeps.outside_attachments {m n : Machine σ} {attachments : List Attachment}
    (h : Keeps { m with shell := { m.shell with attachments } } n) :
    Keeps m { n with shell := { n.shell with attachments := m.shell.attachments } } where
  context := h.context
  attachments := rfl
  streams := h.streams
  outer := h.outer
  interactive := h.interactive
  cancelled := h.cancelled
  balanced := h.balanced
  calls := h.calls

/-- The frame is kept but for the streams, and the redirections know the way back. -/
structure Led (m : Machine σ) (rs : Redirects) (m' : Machine σ) : Prop where
  keeps : Keeps m { m' with shell := { m'.shell with streams := m.shell.streams } }
  back : (rs.restore m'.shell.streams).2 = m.shell.streams

lemma Keeps.led {m m' : Machine σ} {rs : Redirects} (h : Keeps m m') (hidle : rs.Idle) :
    Led m rs m' where
  keeps := by
    have hstreams := h.streams
    obtain ⟨shell, host⟩ := m'
    simp only at hstreams ⊢
    rw [← hstreams]
    exact h
  back := by rw [Redirects.restore_of_idle hidle, h.streams]

/-- What happens inside the frame while the streams are led to their targets. -/
lemma led_of_activate {m n : Machine σ} {rs : Redirects} (hidle : rs.Idle)
    (h : Keeps { m with shell :=
      { m.shell with streams := (rs.activate m.shell.streams).2 } } n) :
    Led m (rs.activate m.shell.streams).1 n where
  keeps := h.outside_streams
  back := by
    rw [h.streams]
    exact Redirects.restore_activate hidle m.shell.streams

lemma Led.of_keeps {m m₁ m' : Machine σ} {rs : Redirects} (h : Led m₁ rs m') (h₁ : Keeps m m₁) :
    Led m rs m' where
  keeps := by
    have hkeeps := h.keeps
    rw [h₁.streams] at hkeeps
    exact h₁.trans hkeeps
  back := h.back.trans h₁.streams

end Machine

namespace Interpreter

open Machine

lemma keeps_detach [FileBase σ] {m m' : Machine σ} {rs : Redirects} (h : Led m rs m')
    (location : Location) : Keeps m (detach rs location m') := by
  have hclosed : Keeps m (rs.detach m').2.2 := by
    have hclose := (Exchange.inputOutput.close (rs.restore m'.shell.streams).1
      { m' with shell := { m'.shell with streams := (rs.restore m'.shell.streams).2 } }).keeps
    rw [h.back] at hclose
    have hdetach : rs.detach m' = Redirects.close (rs.restore m'.shell.streams).1
        { m' with shell := { m'.shell with streams := m.shell.streams } } := by
      rw [← h.back]
      rfl
    rw [hdetach]
    exact h.keeps.trans hclose
  unfold detach
  split
  · rename_i heq
    rw [heq] at hclosed
    exact hclosed
  · rename_i heq
    rw [heq] at hclosed
    exact hclosed.trans (Keeps.answers.report _ _ _)

/-- Each invocation that is started, when it returns, has restored the shell. -/
def Restoring (invoke : Invoke σ) : Prop :=
  ∀ context source definitions, ShellM.Maintains Restores (invoke context source definitions)

/-! ### Commands -/

lemma restores_rememberScript (path : Bytes) (m : Machine σ) :
    Restores m (rememberScript path m) := by
  unfold rememberScript
  split
  · split
    · exact .of_keeps (keeps_setEnvironment m _) rfl rfl
    · exact .refl m
  · exact .refl m

section Commands

variable {invoke : Invoke σ} (hinvoke : Restoring invoke)
include hinvoke

lemma restores_load (context : Option Context) (path definitions : Bytes) :
    ShellM.Maintains Restores (load invoke context path definitions) :=
  ShellM.maintains_bind (ShellM.maintains_modify (restores_rememberScript path)) fun _ =>
    hinvoke context (.ofPath path) definitions

variable [FileBase σ]

/-- Whatever a command does, it stays inside the frame. -/
lemma maintains_call (body : CommandBody) (args : Arguments) :
    ShellM.Maintains Keeps (call invoke body args) := by
  have hkeeps : ∀ context source definitions,
      ShellM.Maintains Keeps (invoke context source definitions) :=
    fun context source definitions m o m' h => (hinvoke context source definitions m o m' h).toKeeps
  refine ShellM.maintains_bind (Keeps.answers.perform hkeeps (body args)) fun v => ?_
  cases v with
  | done => exact ShellM.maintains_pure _
  | failed f => exact ShellM.maintains_pure _
  | crashed cause =>
    refine ShellM.maintains_bind (ShellM.maintains_modify fun m => ?_) fun _ =>
      ShellM.maintains_pure _
    exact (m.exchange_record _).keeps

end Commands

/-! ### Lines -/

lemma keeps_fail [FileBase σ] (location : Location) (message : Bytes) (m : Machine σ) :
    Keeps m (fail location message m) :=
  (Keeps.answers.report location message m).trans (keeps_setErrored true _)

lemma keeps_record_report [FileBase σ] (location : Location) (message : Bytes) (e : Event)
    (m : Machine σ) : Keeps m ((report location message m).record e) :=
  ((Exchange.inputOutput.report location message m).trans (Machine.exchange_record _ e)).keeps

/-- In balance and inside an invocation, a command that is called finds its definitions. -/
lemma keeps_noteCall (m : Machine σ) (words : List Bytes) : Keeps m (m.noteCall words) where
  context := rfl
  attachments := rfl
  streams := rfl
  outer := rfl
  interactive := rfl
  cancelled := List.Subset.refl _
  balanced := id
  calls := by
    refine ⟨[⟨words, m.shell⟩], rfl, fun hb hs c hc => ?_⟩
    obtain rfl := List.mem_singleton.1 hc
    have hdepth : m.shell.depth = _ := hb.1
    rw [List.isEmpty_eq_false_iff.2 hs] at hdepth
    exact Option.map_eq_some_iff.1 hdepth

section Lines

variable {invoke : Invoke σ} (hinvoke : Restoring invoke)
include hinvoke

lemma maintains_runMarked (context : Option Context) (source : Source) :
    ShellM.Maintains Keeps (runMarked invoke context source) := by
  refine ShellM.maintains_bind ?_ fun o => ?_
  · exact fun m o m' h => (hinvoke _ _ _ m o m' h).toKeeps
  · split
    · exact ShellM.maintains_modify (keeps_setErrored true)
    · exact ShellM.maintains_pure ()

/-- The operator's shell takes over and hands back the suspended one as it was. -/
lemma maintains_attend (line : Bytes) : ShellM.Maintains Keeps (attend invoke line) := by
  intro m u m' h
  rw [attend_apply] at h
  obtain ⟨⟨o, n⟩, hrun, heq⟩ := Option.map_eq_some_iff.1 h
  cases heq
  have hrestores := hinvoke _ _ _ _ _ _ hrun
  exact
    { context := rfl
      attachments := rfl
      streams := rfl
      outer := rfl
      interactive := rfl
      cancelled := hrestores.cancelled
      balanced := fun hb => ⟨hb.1, (hrestores.balanced ⟨hb.2, hb.2⟩).1⟩
      calls := by
        obtain ⟨new, hnew, hready⟩ := hrestores.ready
        exact ⟨new, hnew, fun hb _ => hready ⟨hb.2, hb.2⟩⟩ }

variable [FileBase σ]

lemma maintains_callMarked (c : Command CommandBody) (args : Arguments) (words : List Bytes)
    (location : Location) : ShellM.Maintains Keeps (callMarked invoke c args words location) := by
  refine ShellM.maintains_bind (ShellM.maintains_modify fun m => ?_) fun _ =>
    ShellM.maintains_bind (maintains_call hinvoke c.body args) fun failure => ?_
  · have hrecord := ((m.setErrored false).exchange_record (.runCommand words)).keeps
    exact ((keeps_setErrored false m).trans hrecord).trans (keeps_noteCall _ words)
  · cases failure with
    | none => exact ShellM.maintains_pure ()
    | some f =>
      exact ShellM.maintains_modify fun m =>
        (keeps_record_report location f.message _ m).trans (keeps_setErrored true _)

lemma led_callAttached {c : Command CommandBody} {args : Arguments} {words : List Bytes}
    {rs rs' : Redirects} {location : Location} {m m' : Machine σ} (hidle : rs.Idle)
    (h : callAttached invoke c args words rs location m = some (rs', m')) : Led m rs' m' := by
  rw [callAttached_apply] at h
  obtain ⟨⟨u, n⟩, hcall, heq⟩ := Option.map_eq_some_iff.1 h
  cases heq
  -- the call itself runs with the streams and the redirections of the line in force
  have hkeeps : Keeps (attached rs m) n :=
    maintains_callMarked hinvoke c args words location _ u n hcall
  exact led_of_activate hidle hkeeps.outside_attachments

lemma led_dispatchOpen {words : List Bytes} {rs rs' : Redirects} {location : Location}
    {m m' : Machine σ} (hidle : rs.Idle)
    (h : dispatchOpen invoke words rs location m = some (rs', m')) : Led m rs' m' := by
  cases words with
  | nil =>
    obtain ⟨rfl, rfl⟩ := ShellM.pure_eq_some h
    exact (Keeps.refl m).led hidle
  | cons name words =>
    have hmarked := keeps_setErrored true m
    rcases dispatchOpen_cases h with
      ⟨-, rfl, rfl⟩ | ⟨c, f, -, -, rfl, rfl⟩ | ⟨c, args, -, -, hcall⟩
    · exact (hmarked.trans (keeps_record_report _ _ _ _)).led hidle
    · exact (hmarked.trans (keeps_record_report _ _ _ _)).led hidle
    · exact (led_callAttached hinvoke hidle hcall).of_keeps hmarked

/-- Dispatching a line stays inside the frame. -/
lemma maintains_dispatch {line : Line} (hfds : (line.redirections.map Redirection.fd).Nodup)
    (location : Location) : ShellM.Maintains Keeps (dispatch invoke line location) := by
  intro m u m' h
  rcases hopen : (Redirects.ofList line.redirections).openAll m.resolve m with ⟨_ | f, rs, m₁⟩
  · rw [dispatch_apply invoke hopen] at h
    obtain ⟨⟨rs', m₂⟩, hdispatch, heq⟩ := Option.map_eq_some_iff.1 h
    cases heq
    have hidle := (Redirects.idle_ofList hfds).openAll hopen
    exact (exchange_openAll hopen).keeps.trans
      (keeps_detach (led_dispatchOpen hinvoke hidle hdispatch) location)
  · rw [dispatch_refused invoke hopen] at h
    cases h
    exact (exchange_openAll hopen).keeps.trans (keeps_fail location f.message m₁)

/-- Running the script that a line redirects its input from stays inside the frame. -/
lemma maintains_nested (context : Option Context) (name : Bytes) {rs : Redirects}
    (hidle : rs.Idle) (location : Location) :
    ShellM.Maintains Keeps (nested invoke context name rs location) := by
  intro m u m' h
  by_cases hname : name = []
  · subst hname
    cases h
    exact keeps_fail _ _ m
  rcases hopen : rs.openAll m.resolve m with ⟨_ | f, rs', m₁⟩
  · rw [nested_apply invoke hname hopen] at h
    obtain ⟨⟨u, m₂⟩, hrun, heq⟩ := Option.map_eq_some_iff.1 h
    cases heq
    have hkeeps := maintains_runMarked hinvoke _ _ _ _ _ hrun
    exact (exchange_openAll hopen).keeps.trans
      (keeps_detach (led_of_activate (hidle.openAll hopen) hkeeps) location)
  · rw [nested_refused invoke hname hopen] at h
    cases h
    exact (exchange_openAll hopen).keeps.trans (keeps_fail location f.message m₁)

/-- Everything that the rounds of a loop are made of stays inside the frame. -/
lemma rounds_keeps : Rounds invoke Keeps where
  writeLine := Keeps.answers.writeLine
  fail := keeps_fail
  halt := keeps_halt
  follow _ _ := .of_eq rfl rfl rfl rfl rfl rfl rfl (List.Subset.refl _)
  withdraw channel m := keeps_withdraw m channel
  cancel context m := keeps_cancel m context
  resume m := (Keeps.answers.release _ m).trans
    (.of_eq rfl rfl rfl rfl rfl rfl rfl (List.Subset.refl _))
  dispatch location hfds := maintains_dispatch hinvoke hfds location
  nested context name _ location hidle := maintains_nested hinvoke context name hidle location
  attend := maintains_attend hinvoke

/-- The loop stays inside the frame if its reader does. -/
lemma maintains_loop {ρ : Type} {read : ρ → Machine σ → Option Bytes × ρ × Machine σ}
    (hread : ∀ r m, Keeps m (read r m).2.2) (context : Option Context) (script : Bool)
    (fuel : Nat) (p : Progress ρ) :
    ShellM.Maintains Keeps (loop read invoke context script fuel p) :=
  (rounds_keeps hinvoke).loop hread context script fuel p

end Lines

/-! ### Entering and leaving -/

lemma enter_eq (context : Option Context) (scope : Scope) (defs : List Definition)
    (m : Machine σ) : ∃ sessions, enter context scope defs m =
      { shell := { m.shell with
          context, scopes := scope :: m.shell.scopes,
          definitions := some (((m.shell.definitions.getD {}).push).install defs) },
        host := { m.host with sessions } } := by
  unfold enter
  dsimp only
  split
  · exact ⟨_, rfl⟩
  · exact ⟨_, rfl⟩

lemma leave_eq (context : Option Context) (m : Machine σ) :
    ∃ sessions, leave context m =
      { shell := { m.shell with
          context, scopes := m.shell.scopes.tail,
          definitions := if m.shell.scopes.tail.isEmpty then none
            else m.shell.definitions.map Definitions.pop },
        host := { m.host with sessions } } := by
  unfold leave
  dsimp only
  split
  · exact ⟨_, rfl⟩
  · exact ⟨_, rfl⟩

/-- Entering adds a scope on both sides of the balance. -/
lemma balanced_enter {m : Machine σ} (h : m.Balanced) (context : Option Context) (scope : Scope)
    (defs : List Definition) : (enter context scope defs m).Balanced := by
  obtain ⟨sessions, heq⟩ := enter_eq context scope defs m
  rw [heq]
  refine ⟨?_, h.2⟩
  have hdepth : m.shell.depth = _ := h.1
  show some (Definitions.depth _) = some (1 + (scope :: m.shell.scopes).length)
  rw [Definitions.depth_install, Definitions.depth_push]
  unfold Shell.depth at hdepth
  cases hs : m.shell.scopes with
  | nil =>
    -- the outermost invocation starts with an empty scope around its own
    rw [hs] at hdepth
    rw [Option.map_eq_none_iff.1 hdepth]
    rfl
  | cons s rest =>
    rw [hs] at hdepth
    obtain ⟨d, hd, hlength⟩ := Option.map_eq_some_iff.1 hdepth
    rw [hd, Option.getD_some, hlength]
    exact congrArg some (by simp only [List.length_cons]; omega)

/-- Leaving takes a scope from both sides of the balance. -/
lemma balanced_leave {m : Machine σ} (h : m.Balanced) (context : Option Context) :
    (leave context m).Balanced := by
  obtain ⟨sessions, heq⟩ := leave_eq context m
  rw [heq]
  refine ⟨?_, h.2⟩
  have hdepth : m.shell.depth = _ := h.1
  unfold Shell.Balanced Shell.depth
  unfold Shell.depth at hdepth
  dsimp only
  cases hs : m.shell.scopes with
  | nil => rfl
  | cons s rest =>
    cases rest with
    | nil => rfl
    | cons s' rest =>
      -- two scopes at least, so that there is a scope of definitions to take away
      rw [hs] at hdepth
      obtain ⟨d, hd, hlength⟩ := Option.map_eq_some_iff.1 hdepth
      have hpop := Definitions.depth_pop (d := d) (by rw [hlength, List.length_cons]; omega)
      simp only [hd, List.tail_cons, List.isEmpty_cons, Bool.false_eq_true, if_false,
        Option.map_some, List.length_cons] at hlength ⊢
      exact congrArg some (by omega)

/-- What an invocation does between entering and leaving, it does inside its own scope. -/
lemma restores_leave {m n : Machine σ} {context : Option Context} {scope : Scope}
    {defs : List Definition} (h : Keeps (enter context scope defs m) n) :
    Restores m (leave m.shell.context n) := by
  have hbalanced : m.Balanced → (leave m.shell.context n).Balanced := fun hb =>
    balanced_leave (h.balanced (balanced_enter hb context scope defs)) _
  have henter : m.Balanced → (enter context scope defs m).Balanced := fun hb =>
    balanced_enter hb context scope defs
  obtain ⟨sessions, heq⟩ := enter_eq context scope defs m
  obtain ⟨sessions', heq'⟩ := leave_eq m.shell.context n
  rw [heq] at h henter
  rw [heq'] at hbalanced ⊢
  have hscopes : n.shell.scopes.tail = m.shell.scopes := h.outer
  obtain ⟨new, hnew, hready⟩ := h.calls
  have hready' : m.Balanced → ∀ c ∈ new, c.Ready := fun hb =>
    hready (henter hb) (List.cons_ne_nil scope m.shell.scopes)
  exact
    { context := rfl
      attachments := h.attachments
      streams := h.streams
      outer := congrArg List.tail hscopes
      interactive := congrArg (fun s => s.head?.map Scope.interactive) hscopes
      cancelled := h.cancelled
      balanced := hbalanced
      calls := ⟨new, hnew, fun hb _ => hready' hb⟩
      scopes := hscopes
      ready := ⟨new, hnew, hready'⟩ }

/-! ### Invocations -/

/-- An invocation restores the shell if the invocations inside it do. -/
lemma restoring_invocation [FileBase σ] {invoke : Invoke σ} (hinvoke : Restoring invoke)
    (fuel : Nat) : Restoring (invocation invoke fuel) := by
  intro context source definitions m o m' h
  have hopened := (Exchange.inputOutput.openSource source m).restores
  rcases invocation_cases h with ⟨f, hopen, -⟩ | ⟨reader, m₁, f, hopen, -, -, rfl⟩ |
      ⟨reader, m₁, defs, p, hopen, -, hloop, -, rfl⟩ <;> rw [hopen] at hopened
  · -- nothing has been entered yet
    exact hopened
  · -- only the source has to be closed again
    exact hopened.trans ((Exchange.inputOutput.writeLine _ _ m₁).trans
      (Exchange.inputOutput.closeReader _ _)).restores
  · have hread : ∀ r (n : Machine σ), Keeps n (readLine r n).2.2 := Keeps.answers.readLine
    have hkeeps := maintains_loop hinvoke hread _ _ _ _ _ _ _ hloop
    exact (hopened.trans (restores_leave hkeeps)).trans
      (Exchange.inputOutput.closeReader _ _).restores

/-- Every invocation restores the shell, however deeply invocations nest in it. -/
lemma restoring_invoke [FileBase σ] (fuel : Nat) : Restoring (invoke fuel : Invoke σ) := by
  induction fuel with
  | zero =>
    intro context source definitions m o m' h
    cases h
  | succ fuel ih => exact restoring_invocation ih fuel

end Interpreter

namespace Machine

/-- Shells that run nothing are in balance. -/
lemma balanced_of_idle {m : Machine σ} (hscopes : m.shell.scopes = [])
    (hdefinitions : m.shell.definitions = none) (hscopes' : m.host.operator.scopes = [])
    (hdefinitions' : m.host.operator.definitions = none) : m.Balanced := by
  constructor
  · rw [Shell.Balanced, Shell.depth, hscopes, hdefinitions]
    rfl
  · rw [Shell.Balanced, Shell.depth, hscopes', hdefinitions']
    rfl

/-- **Invocations restore the shell.**  However a script, the console or a single line is run
and whatever comes of it, the shell has the scopes, the context, the redirections and the
streams that it had before.  If scopes and definitions were in balance, as they are in a shell
that runs nothing and remain ever after, then the definitions have as many scopes as before,
and each command that was called found definitions with one scope more than there were running
invocations. -/
theorem run_restores {m m' : Machine} {fuel : Nat} {context : Option Context}
    {definitions : Bytes} {o : Outcome}
    (h : (∃ path, m.load fuel context path definitions = some (o, m')) ∨
      ∃ line, m.runLine fuel context line definitions = some (o, m')) :
    m'.shell.scopes = m.shell.scopes ∧ m'.shell.context = m.shell.context ∧
      m'.shell.attachments = m.shell.attachments ∧ m'.shell.streams = m.shell.streams ∧
      ∃ calls, m'.host.calls = calls ++ m.host.calls ∧
        (m.Balanced →
          m'.shell.depth = m.shell.depth ∧ m'.Balanced ∧ ∀ c ∈ calls, c.Ready) := by
  have hrestoring := Interpreter.restoring_invoke fuel
  have hrestores : Restores m m' := by
    rcases h with ⟨path, h⟩ | ⟨line, h⟩
    · exact Interpreter.restores_load hrestoring context path definitions m o m' h
    · exact hrestoring context (.line line) definitions m o m' h
  obtain ⟨calls, hcalls, hready⟩ := hrestores.ready
  exact ⟨hrestores.scopes, hrestores.context, hrestores.attachments, hrestores.streams, calls,
    hcalls, fun hb => ⟨hrestores.depth hb, hrestores.balanced hb, hready hb⟩⟩

/-- A line with a redirection whose command runs a line whose command runs a line. -/
theorem run_restores_nested_lines :
    let m : Machine := { host := { table := CommandTable.control } }
    ∃ o m', m.runLine 6 none "iocshCmd 'iocshRun on' > out" [] = some (o, m') ∧
      m'.shell.streams = m.shell.streams ∧ m'.host.calls.length = 3 ∧
      ∀ c ∈ m'.host.calls, c.Ready := by
  intro m
  have hruns : (m.runLine 6 none "iocshCmd 'iocshRun on' > out" []).any
      (fun r => r.2.host.calls.length == 3) = true := by decide +kernel
  obtain ⟨⟨o, m'⟩, hrun, hlength⟩ := (Option.any_eq_true _ _).1 hruns
  obtain ⟨-, -, -, hstreams, calls, hcalls, hready⟩ := run_restores (.inr ⟨_, hrun⟩)
  have hbalanced : m.Balanced := balanced_of_idle rfl rfl rfl rfl
  refine ⟨o, m', hrun, hstreams, by simpa using hlength, ?_⟩
  rw [hcalls, List.append_nil]
  exact (hready hbalanced).2.2

end Machine

end ConsoleShell
