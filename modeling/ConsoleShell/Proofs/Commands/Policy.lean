/-
What a line that sets an error policy leaves behind.

The command for error policies looks at the word for the policy and at the word after it.  It
clears the mark of the line, sets the policy and, for the words that ask to suspend, the time to
wait.  This file says which scope it leaves behind, and compares two scopes with different
pasts: the same words leave both with the same policy, and with the same time to wait unless
they ask for a wait without saying how long, which keeps what an earlier line has set.

No other command that comes with the shell sets a policy.  A command that does not, or the one
that does, leaves the policy of the line's scope as it is or leaves the scope without a mark.
-/
import ConsoleShell.Proofs.Commands.Usual
import ConsoleShell.Proofs.Shell.Invocation

namespace ConsoleShell

/-! ### The scope after the line -/

/-- The policy that a word stands for. -/
def Policy.ofWord? (word : Bytes) : Option Policy :=
  if word = "continue" then some .proceed
  else if word = "break" then some .stop
  else if word = "halt" ∨ word = "wait" then some .suspend
  else none

namespace Scope

/-- The time to wait that a word stands for. -/
def waitTime (text : Bytes) : Double :=
  match Double.parse text with
  | .ok seconds => seconds
  | .error _ => Commands.waitFallback

/-- The time to wait that the word for a policy sets with the word after it; none if they leave
the time that is set. -/
def timeSet? (word : Bytes) (value : Option Bytes) : Option Double :=
  if word = "halt" then some (.zero false)
  else if word = "wait" then value.map waitTime
  else none

/-- The scope after a line that sets the policy by a word, with the word after it. -/
def adopt (s : Scope) (word : Bytes) (value : Option Bytes) : Scope :=
  match Policy.ofWord? word with
  | none => { s with errored := true }
  | some policy =>
    { s with policy, timeout := (timeSet? word value).getD s.timeout, errored := false }

/-- The scopes do the same about a line that fails: they have the same policy and, if it is to
suspend, the same time to wait. -/
def AlikeOnFailure (s t : Scope) : Prop :=
  s.policy = t.policy ∧ (s.policy = .suspend → s.timeout = t.timeout)

variable {word : Bytes} {policy : Policy}

lemma adopt_of_ofWord? (h : Policy.ofWord? word = some policy) (s : Scope)
    (value : Option Bytes) : s.adopt word value =
      { s with policy, timeout := (timeSet? word value).getD s.timeout, errored := false } := by
  rw [adopt, h]

/-- Only a wait without a time leaves the time that is set. -/
lemma timeSet?_eq_none_iff (h : Policy.ofWord? word = some .suspend) (value : Option Bytes) :
    timeSet? word value = none ↔ word = "wait" ∧ value = none := by
  by_cases hhalt : word = "halt"
  · subst hhalt
    exact iff_of_false (by simp [timeSet?]) fun hwait => absurd hwait.1 (by decide)
  by_cases hwait : word = "wait"
  · subst hwait
    have hset : timeSet? "wait" value = value.map waitTime := rfl
    rw [hset, Option.map_eq_none_iff, eq_self_iff_true, true_and]
  · -- the word would not ask to suspend
    refine absurd h ?_
    simp only [Policy.ofWord?, hhalt, hwait, or_self]
    split
    · simp
    · split <;> simp

/-- Two scopes that adopt a policy by the same words do the same about lines that fail, unless
the words ask for a wait without a time; then the times set before have to agree. -/
lemma alikeOnFailure_adopt_iff (h : Policy.ofWord? word = some policy) (s t : Scope)
    (value : Option Bytes) : (s.adopt word value).AlikeOnFailure (t.adopt word value) ↔
      (word = "wait" → value = none → s.timeout = t.timeout) := by
  rw [AlikeOnFailure, adopt_of_ofWord? h, adopt_of_ofWord? h, eq_self_iff_true, true_and]
  by_cases hpolicy : policy = .suspend
  · subst hpolicy
    have hnone := timeSet?_eq_none_iff h value
    cases htime : timeSet? word value with
    | none =>
      obtain ⟨hword, hvalue⟩ := hnone.1 htime
      simp [hword, hvalue]
    | some seconds =>
      refine iff_of_true (fun _ => rfl) fun hword hvalue => ?_
      simp [hnone.2 ⟨hword, hvalue⟩] at htime
  · refine iff_of_true (fun hsuspend => absurd hsuspend hpolicy) fun hword _ => ?_
    subst hword
    exact absurd (Option.some.inj h) (Ne.symm hpolicy)

end Scope

namespace Machine

lemma scopes_modifyScope {m : Machine} {s : Scope} {rest : List Scope}
    (h : m.shell.scopes = s :: rest) (f : Scope → Scope) :
    (m.modifyScope f).shell.scopes = f s :: rest := by
  simp only [modifyScope, h]

lemma scopes_writeLine (o : Output) (text : Bytes) (m : Machine) :
    (m.writeLine o text).shell.scopes = m.shell.scopes :=
  (Exchange.inputOutput.writeLine o text m).restores.scopes

end Machine

namespace Interpreter

open Machine

/-- A routine is performed piece by piece. -/
lemma perform_bind {α β : Type} (invoke : Invoke) (r : Routine α) (f : α → Routine β) :
    perform invoke (r >>= f) = perform invoke r >>= fun a => perform invoke (f a) := by
  induction r with
  | done a => rw [perform, pure_bind]; rfl
  | ask q next ih =>
    show (modifyGet _ >>= fun a => perform invoke (next a >>= f)) = _
    rw [perform, bind_assoc]
    exact congrArg _ (funext ih)
  | run line definitions next ih =>
    show (get >>= fun m => invoke _ _ _ >>= fun o => perform invoke (next o >>= f)) = _
    simp only [perform, bind_assoc, ih]
  | load path definitions next ih =>
    show (get >>= fun m => load invoke _ _ _ >>= fun o => perform invoke (next o >>= f)) = _
    simp only [perform, bind_assoc, ih]

/-- A query is answered at once. -/
lemma perform_query_bind {α : Type} (invoke : Invoke) (q : Query) (f : q.Answer → Routine α)
    (m : Machine) : perform invoke (Routine.query q >>= f) m =
      perform invoke (f (m.answer q).1) (m.answer q).2 := rfl

variable {m : Machine} {s : Scope} {rest : List Scope}

lemma scopes_perform_setWait (hscopes : m.shell.scopes = s :: rest) (value : Option Bytes)
    (invoke : Invoke) :
    ∃ m', perform invoke (Commands.setWait value) m = some ((), m') ∧
      m'.shell.scopes = { s with
        policy := .suspend, timeout := (value.map Scope.waitTime).getD s.timeout } :: rest := by
  have hpolicy := scopes_modifyScope hscopes fun s => { s with policy := .suspend }
  cases value with
  | none => exact ⟨_, rfl, (scopes_writeLine _ _ _).trans hpolicy⟩
  | some text =>
    rw [Commands.setWait, Option.map_some, Option.getD_some, Scope.waitTime]
    cases Double.parse text with
    | ok seconds => exact ⟨_, rfl, scopes_modifyScope hpolicy _⟩
    | error f =>
      exact ⟨_, rfl, scopes_modifyScope ((scopes_writeLine _ _ _).trans hpolicy) _⟩

lemma scopes_perform_setPolicy (hscopes : m.shell.scopes = s :: rest) (word : Bytes)
    (value : Option Bytes) (invoke : Invoke) :
    ∃ m', perform invoke (Commands.setPolicy word value) m = some ((), m') ∧
      m'.shell.scopes = s.adopt word value :: rest := by
  have hmark := scopes_setErrored hscopes false
  rw [Scope.adopt, Policy.ofWord?, Scope.timeSet?]
  by_cases hcontinue : word = "continue"
  · subst hcontinue
    exact ⟨_, rfl, scopes_modifyScope hmark _⟩
  by_cases hbreak : word = "break"
  · subst hbreak
    exact ⟨_, rfl, scopes_modifyScope hmark _⟩
  by_cases hhalt : word = "halt"
  · subst hhalt
    exact ⟨_, rfl, scopes_modifyScope (scopes_modifyScope hmark _) _⟩
  by_cases hwait : word = "wait"
  · subst hwait
    exact scopes_perform_setWait hmark value invoke
  · -- no policy has the name, and the line is marked
    have hother : Commands.setPolicy word value = (do
        Routine.query (.setErrored false)
        Routine.complain Commands.onUsage
        Routine.query (.setErrored true)) := by
      simp only [Commands.setPolicy, beq_iff_eq, hcontinue, hbreak, hhalt, hwait, ↓reduceIte]
      rfl
    simp only [hother, hcontinue, hbreak, hhalt, hwait, or_self, ↓reduceIte]
    exact ⟨_, rfl, scopes_setErrored ((scopes_writeLine _ _ _).trans hmark) true⟩

/-- Performing the command in a scope that is not interactive. -/
lemma scopes_perform_on (hscopes : m.shell.scopes = s :: rest)
    (hinteractive : s.interactive = false) {args : Arguments} {name word : Bytes}
    {values : List Bytes} (hargs : args.words? 0 = some (name :: "error" :: word :: values))
    (invoke : Invoke) :
    ∃ m', perform invoke (Commands.on args) m = some (.done, m') ∧
      m'.shell.scopes = s.adopt word values.head? :: rest := by
  obtain ⟨m', hperform, hscopes'⟩ := scopes_perform_setPolicy hscopes word values.head? invoke
  refine ⟨m', ?_, hscopes'⟩
  refine (perform_query_bind invoke .scope _ m).trans ?_
  simp only [answer, hscopes, hargs, hinteractive, List.head?_cons, Option.getD_some,
    bne_self_eq_false, Bool.false_eq_true, if_false]
  rw [perform_bind, ShellM.bind_apply, hperform]
  rfl

/-- With other words the command says how it is used. -/
lemma perform_on_of_other (hscopes : m.shell.scopes = s :: rest) {args : Arguments}
    (hother : ¬ ∃ (name word : Bytes) (values : List Bytes),
      args.words? 0 = some (name :: "error" :: word :: values)) (invoke : Invoke) :
    perform invoke (Commands.on args) m = some (.done, m.writeLine .error Commands.onUsage) := by
  refine (perform_query_bind invoke .scope _ m).trans ?_
  simp only [answer, hscopes, List.head?_cons]
  cases hargs : args.words? 0 with
  | none => rfl
  | some words =>
    rcases words with _ | ⟨name, _ | ⟨what, _ | ⟨word, values⟩⟩⟩
    · rfl
    · rfl
    · rfl
    · have hwhat : (what != "error") = true := by
        refine bne_iff_ne.2 ?_
        rintro rfl
        exact hother ⟨name, word, values, hargs⟩
      simp only [Option.getD_some, hwhat, if_true]
      rfl

/-- However the command is called in a scope that is not interactive, it is done, and the scope
is as it was or has adopted the policy of a word. -/
lemma perform_on_cases (hscopes : m.shell.scopes = s :: rest) (hinteractive : s.interactive = false)
    (args : Arguments) (invoke : Invoke) :
    ∃ m', perform invoke (Commands.on args) m = some (.done, m') ∧
      (m'.shell.scopes = s :: rest ∨
        ∃ word value, m'.shell.scopes = s.adopt word value :: rest) := by
  by_cases herror : ∃ (name word : Bytes) (values : List Bytes),
      args.words? 0 = some (name :: "error" :: word :: values)
  · obtain ⟨name, word, values, hargs⟩ := herror
    obtain ⟨m', hrun, hscopes'⟩ := scopes_perform_on hscopes hinteractive hargs invoke
    exact ⟨m', hrun, .inr ⟨word, values.head?, hscopes'⟩⟩
  · -- other words are told how the command is used
    refine ⟨_, perform_on_of_other hscopes herror invoke, .inl ?_⟩
    exact (scopes_writeLine _ _ m).trans hscopes

/-! ### Two pasts -/

/-- **A policy and what was set before.**  The same words, performed in two scopes that are not
interactive, leave both with the policy that the words name and without a mark.  The scopes then
do the same about lines that fail, unless the words ask for a wait without saying how long: this
suspends for the time that an earlier line has set, so that the scopes do the same only if these
times agree. -/
theorem on_error_alike_iff {m₁ m₂ : Machine} {s₁ s₂ : Scope} {rest₁ rest₂ : List Scope}
    (hscopes₁ : m₁.shell.scopes = s₁ :: rest₁) (hscopes₂ : m₂.shell.scopes = s₂ :: rest₂)
    (hinteractive₁ : s₁.interactive = false) (hinteractive₂ : s₂.interactive = false)
    {args : Arguments} {name word : Bytes} {values : List Bytes} {policy : Policy}
    (hargs : args.words? 0 = some (name :: "error" :: word :: values))
    (hword : Policy.ofWord? word = some policy) (invoke₁ invoke₂ : Invoke) :
    ∃ m₁' m₂' s₁' s₂',
      perform invoke₁ (Commands.on args) m₁ = some (.done, m₁') ∧
      perform invoke₂ (Commands.on args) m₂ = some (.done, m₂') ∧
      m₁'.shell.scopes = s₁' :: rest₁ ∧ m₂'.shell.scopes = s₂' :: rest₂ ∧
      s₁'.policy = policy ∧ s₂'.policy = policy ∧
      s₁'.errored = false ∧ s₂'.errored = false ∧
      (s₁'.AlikeOnFailure s₂' ↔ (word = "wait" → values = [] → s₁.timeout = s₂.timeout)) := by
  obtain ⟨m₁', hrun₁, hleft₁⟩ := scopes_perform_on hscopes₁ hinteractive₁ hargs invoke₁
  obtain ⟨m₂', hrun₂, hleft₂⟩ := scopes_perform_on hscopes₂ hinteractive₂ hargs invoke₂
  have hadopt := fun s => Scope.adopt_of_ofWord? hword s values.head?
  refine ⟨m₁', m₂', _, _, hrun₁, hrun₂, hleft₁, hleft₂, ?_, ?_, ?_, ?_, ?_⟩
  · rw [hadopt]
  · rw [hadopt]
  · rw [hadopt]
  · rw [hadopt]
  · rw [Scope.alikeOnFailure_adopt_iff hword, List.head?_eq_none_iff]

/-- A wait with a time, in a scope that stops and in one that waits for another time. -/
theorem on_error_alike_iff_wait_with_time :
    let scope : Scope := { policy := .stop, errored := true }
    let other : Scope := { policy := .suspend, timeout := .ofInt 2 }
    let args : Arguments := [.words ["on", "error", "wait", "1"]]
    ∃ m₁' m₂' s₁' s₂',
      perform (invoke 0) (Commands.on args) { shell := { scopes := [scope] } } =
        some (.done, m₁') ∧
      perform (invoke 0) (Commands.on args) { shell := { scopes := [other, scope] } } =
        some (.done, m₂') ∧
      m₁'.shell.scopes = [s₁'] ∧ m₂'.shell.scopes = [s₂', scope] ∧ s₁'.AlikeOnFailure s₂' := by
  intro scope other args
  have hargs : args.words? 0 = some (["on", "error", "wait", "1"] : List Bytes) := rfl
  have hword : Policy.ofWord? "wait" = some .suspend := by decide
  have hscopes : ({ shell := { scopes := [scope] } } : Machine).shell.scopes = [scope] := rfl
  have hscopes' : ({ shell := { scopes := [other, scope] } } : Machine).shell.scopes =
      [other, scope] := rfl
  obtain ⟨m₁', m₂', s₁', s₂', hrun₁, hrun₂, hleft₁, hleft₂, -, -, -, -, halike⟩ :=
    on_error_alike_iff hscopes hscopes' rfl rfl hargs hword (invoke 0) (invoke 0)
  exact ⟨m₁', m₂', s₁', s₂', hrun₁, hrun₂, hleft₁, hleft₂, halike.2 fun _ => by simp⟩

/-- A wait without a time, in a scope that suspends until it is resumed and in one that has
waited for two seconds: the second still waits for two seconds. -/
theorem wait_without_time_keeps_the_past :
    let scope : Scope := {}
    let other : Scope := { policy := .suspend, timeout := .ofInt 2 }
    let args : Arguments := [.words ["on", "error", "wait"]]
    ∃ m₁' m₂' s₁' s₂',
      perform (invoke 0) (Commands.on args) { shell := { scopes := [scope] } } =
        some (.done, m₁') ∧
      perform (invoke 0) (Commands.on args) { shell := { scopes := [other] } } =
        some (.done, m₂') ∧
      m₁'.shell.scopes = [s₁'] ∧ m₂'.shell.scopes = [s₂'] ∧
      s₁'.policy = .suspend ∧ s₁'.isTimed = false ∧ s₂'.isTimed = true ∧
      ¬ s₁'.AlikeOnFailure s₂' := by
  intro scope other args
  have hargs : args.words? 0 = some (["on", "error", "wait"] : List Bytes) := rfl
  have hscopes (s : Scope) : ({ shell := { scopes := [s] } } : Machine).shell.scopes = [s] := rfl
  obtain ⟨m₁', hrun₁, hleft₁⟩ := scopes_perform_on (hscopes scope) rfl hargs (invoke 0)
  obtain ⟨m₂', hrun₂, hleft₂⟩ := scopes_perform_on (hscopes other) rfl hargs (invoke 0)
  refine ⟨m₁', m₂', _, _, hrun₁, hrun₂, hleft₁, hleft₂, by decide, by decide, by decide, ?_⟩
  exact fun halike => absurd (halike.2 (by decide)) (by decide)

end Interpreter

/-! ### Commands that set no policy -/

/-- The query sets no policy. -/
def Query.IsFirm : Query → Prop
  | .setPolicy _ => False
  | _ => True

lemma Query.IsOrdinary.isFirm {q : Query} (h : q.IsOrdinary) : q.IsFirm := by
  cases q with
  | setPolicy policy => exact h
  | _ => trivial

/-- The routine sets no policy by itself. -/
def Routine.Firm {α : Type} (r : Routine α) : Prop := r.Asks Query.IsFirm fun _ _ => True

lemma Routine.Usual.firm {r : Routine Verdict} (h : r.Usual) :
    (∃ args, r = Commands.on args) ∨ r.Firm := by
  have hmark : ∀ failed, (Commands.markFailed failed).Firm := fun failed =>
    Routine.asks_markFailed trivial failed
  cases h with
  | still h => exact .inr (h.asks fun _ => Query.IsOrdinary.isFirm)
  | on args => exact .inl ⟨args, rfl⟩
  | run line definitions failed => exact .inr ⟨trivial, fun o => hmark _⟩
  | load path definitions failed => exact .inr ⟨trivial, fun o => hmark _⟩

/-- The command sets no policy by itself, unless it does what the command for policies does. -/
def CommandBody.Firm (body : CommandBody) : Prop :=
  ∀ args, (∃ args', body args = Commands.on args') ∨ (body args).Firm

lemma CommandBody.Usual.firm {body : CommandBody} (h : CommandBody.Usual body) :
    CommandBody.Firm body :=
  fun args => (h args).firm

namespace CommandTable

/-- No command of the table sets a policy but the one for policies. -/
def Firm (t : CommandTable) : Prop := t.All CommandBody.Firm

/-- Registering variables leaves a table whose commands set no policy but the one for policies. -/
theorem Firm.addVariable {t : CommandTable} (h : t.Firm) (v : Variable) :
    Firm (addVariable t v).table :=
  All.addVariable h Commands.still_var.usual.firm v

end CommandTable

namespace Machine

/-- The policy of the innermost scope. -/
def policy? (m : Machine) : Option Policy := m.shell.scopes.head?.map Scope.policy

/-- The policy of the innermost scope is as it was. -/
def KeepsPolicy (m m' : Machine) : Prop := m'.policy? = m.policy?

namespace KeepsPolicy

instance : Std.Refl KeepsPolicy := ⟨fun _ => rfl⟩

instance : IsTrans Machine KeepsPolicy := ⟨fun _ _ _ h h' => Eq.trans h' h⟩

lemma of_scopes {m m' : Machine} (h : m'.shell.scopes = m.shell.scopes) : KeepsPolicy m m' := by
  rw [KeepsPolicy, policy?, policy?, h]

lemma modifyScope {f : Scope → Scope}
    (hf : ∀ s, (f s).policy = s.policy) (m : Machine) : KeepsPolicy m (m.modifyScope f) := by
  cases hscopes : m.shell.scopes with
  | nil => exact of_scopes (by simp only [Machine.modifyScope, hscopes])
  | cons s rest =>
    rw [KeepsPolicy, policy?, policy?, scopes_modifyScope hscopes, hscopes]
    exact congrArg some (hf s)

lemma setErrored (errored : Bool) (m : Machine) : KeepsPolicy m (m.setErrored errored) :=
  modifyScope (f := fun s => { s with errored }) (fun _ => rfl) m

/-- What a routine asks that sets no policy keeps it. -/
lemma answers : Answers Query.IsFirm KeepsPolicy where
  toInputOutput := Exchange.inputOutput.mono fun h => of_scopes h.restores.scopes
  move _ _ := of_scopes rfl
  books _ _ _ _ := of_scopes rfl
  modifyScope _ hP m := modifyScope (hP.resolve_left fun ⟨_, hset⟩ => hset) m
  record m _ := of_scopes (m.exchange_record _).restores.scopes
  setEnvironment _ _ _ _ := of_scopes rfl
  clearDefinition _ _ := of_scopes rfl

end KeepsPolicy

end Machine

namespace Interpreter

open Machine

variable {invoke : Invoke} (hinvoke : Restoring invoke)
include hinvoke

/-- A routine that sets no policy keeps that of its scope, whatever invocations it starts. -/
lemma keepsPolicy_perform {α : Type} {r : Routine α} (hr : r.Firm) :
    ShellM.Maintains KeepsPolicy (perform invoke r) :=
  hr.maintains (fun _ m hq => KeepsPolicy.answers.answer hq m)
    (fun _ _ _ _ m o m' hrun => .of_scopes (hinvoke _ _ _ m o m' hrun).scopes)
    fun _ _ _ _ m o m' hrun => .of_scopes (restores_load hinvoke _ _ _ m o m' hrun).scopes

/-- A command of a table in which only the one for policies sets them, called in a scope that is
not interactive: the policy of the scope is as it was, or the command is done and has left the
scope without a mark. -/
lemma keepsPolicy_or_unmarked_of_call {m n : Machine} {s : Scope} {rest : List Scope}
    (hscopes : m.shell.scopes = s :: rest) (hinteractive : s.interactive = false)
    {body : CommandBody} (hbody : CommandBody.Firm body) {args : Arguments}
    {failure : Option Failure} (hcall : call invoke body args m = some (failure, n)) :
    KeepsPolicy m n ∨ failure = none ∧ n.isErrored = false := by
  rcases hbody args with ⟨args', hon⟩ | hfirm
  · obtain ⟨m', hrun, hleft⟩ := perform_on_cases hscopes hinteractive args' invoke
    rw [call_apply, hon, hrun] at hcall
    cases hcall
    rcases hleft with hsame | ⟨word, value, hadopted⟩
    · exact .inl (.of_scopes (hsame.trans hscopes.symm))
    · -- a word that names no policy keeps it, and any other clears the mark
      cases hword : Policy.ofWord? word with
      | none =>
        refine .inl ?_
        rw [KeepsPolicy, policy?, policy?, hadopted, hscopes, Scope.adopt, hword]
        rfl
      | some policy =>
        refine .inr ⟨rfl, ?_⟩
        rw [isErrored, hadopted, Scope.adopt_of_ofWord? hword]
        rfl
  · refine .inl ?_
    rw [call_apply] at hcall
    obtain ⟨⟨v, n₁⟩, hrun, heq⟩ := Option.map_eq_some_iff.1 hcall
    have hkept := keepsPolicy_perform hinvoke hfirm m v n₁ hrun
    cases v with
    | done =>
      cases heq
      exact hkept
    | failed f =>
      cases heq
      exact hkept
    | crashed cause =>
      cases heq
      exact trans_of KeepsPolicy hkept (.of_scopes (n₁.exchange_record _).restores.scopes)

end Interpreter

end ConsoleShell
