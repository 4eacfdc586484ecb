/-
What a single line returns.

An invocation for a single line begins with the policy to stop after a line that failed.  The line
itself can change the policy, and scripts that it runs have policies of their own.  This file shows
that the invocation nevertheless returns a failure exactly if its own scope is marked when the line
is done, and that the failure is then always that the policy stopped it: a line that changes the
policy leaves no mark, and invocations inside it give the scope back.  For a line that is dispatched
it says what the mark means.
-/
import ConsoleShell.Proofs.Commands.Policy
import ConsoleShell.Proofs.DefinitionList.Printing
import ConsoleShell.Proofs.Shell.Diagnosis
import ConsoleShell.Proofs.Shell.Loop

namespace ConsoleShell

/-- The scope of an invocation whose only line has been handled: it is not interactive, it stops or
has no mark, and it has none if the line has left the invocation. -/
structure Scope.Done (s : Scope) (c : Interpreter.Continuation) : Prop where
  interactive : s.interactive = false
  policy : s.policy = .stop ∨ s.errored = false
  leave : c = .leave → s.errored = false

namespace Interpreter

open Machine

/-! ### What goes wrong with a dispatched line -/

/-- A line that is dispatched goes wrong: a target cannot be opened, no command has the name, the
words do not fit its declaration, or the command fails, crashes or leaves the scope marked. -/
inductive GoesWrong (invoke : Invoke) (line : Line) (m : Machine) : Prop
  | target {f : RedirectionFault} {rs : Redirects} {n : Machine}
      (hopen : (Redirects.ofList line.redirections).openAll m.resolve m = (some f, rs, n))
  | unknown {rs : Redirects} {n : Machine} {name : Bytes} {rest : List Bytes}
      (hopen : (Redirects.ofList line.redirections).openAll m.resolve m = (none, rs, n))
      (hwords : line.words = name :: rest) (hfind : n.host.table.findCommand? name = none)
  | rejected {rs : Redirects} {n : Machine} {name : Bytes} {rest : List Bytes}
      {c : Command CommandBody} {f : Argument.Fault}
      (hopen : (Redirects.ofList line.redirections).openAll m.resolve m = (none, rs, n))
      (hwords : line.words = name :: rest) (hfind : n.host.table.findCommand? name = some c)
      (hbind : Argument.bind n.host.table.handle c.signature line.words = .error f)
  | called {rs : Redirects} {n n' : Machine} {name : Bytes} {rest : List Bytes}
      {c : Command CommandBody} {args : Arguments} {failure : Option Failure}
      (hopen : (Redirects.ofList line.redirections).openAll m.resolve m = (none, rs, n))
      (hwords : line.words = name :: rest) (hfind : n.host.table.findCommand? name = some c)
      (hbind : Argument.bind n.host.table.handle c.signature line.words = .ok args)
      (hcall : call invoke c.body args (Interpreter.called line.words (attached rs
        (n.setErrored true))) = some (failure, n'))
      (hwrong : failure.isSome = true ∨ n'.isErrored = true)

section Marks

variable {invoke : Invoke} {context : Option Context} {raw : Bytes} {location : Location}
  {m n : Machine} {line : Line} {ts : List Trouble} {c : Continuation}

/-- What is done for the words of a line marks it exactly if the line goes wrong. -/
lemma isErrored_iff_of_attempts (hinvoke : Restoring invoke) {rs rs' : Redirects} {n₁ : Machine}
    (hopen : (Redirects.ofList line.redirections).openAll m.resolve m = (none, rs, n₁))
    (hscopes : m.shell.scopes ≠ []) (hunmarked : m.isErrored = false)
    (h : Attempts invoke location line.words rs n₁ ts rs' n) :
    n.isErrored = true ↔ GoesWrong invoke line m := by
  have hopened : n₁.shell.scopes ≠ [] := by rwa [scopes_openAll hopen]
  have hmarked : ts ≠ [] → n.isErrored = true := h.isErrored hinvoke hopened
  cases h with
  | wordless hwords =>
    rw [isErrored_eq_of_scopes (scopes_openAll hopen), hunmarked]
    refine iff_of_false Bool.false_ne_true fun hwrong => ?_
    -- there is no word to go wrong with
    cases hwrong with
    | target hopen' => cases hopen.symm.trans hopen'
    | unknown _ hwords' _ => cases hwords.symm.trans hwords'
    | rejected _ hwords' _ _ => cases hwords.symm.trans hwords'
    | called _ hwords' _ _ _ _ => cases hwords.symm.trans hwords'
  | unknown hwords hfind => exact iff_of_true (hmarked (by simp)) (.unknown hopen hwords hfind)
  | rejected hwords hfind hbind =>
    exact iff_of_true (hmarked (by simp)) (.rejected hopen hwords hfind hbind)
  | done hwords hfind hbind hcall =>
    constructor
    · exact fun herrored => .called hopen hwords hfind hbind hcall (.inr herrored)
    · intro hwrong
      cases hwrong with
      | target hopen' => cases hopen.symm.trans hopen'
      | unknown hopen' hwords' hfind' =>
        cases hopen.symm.trans hopen'
        cases hwords.symm.trans hwords'
        cases hfind.symm.trans hfind'
      | rejected hopen' hwords' hfind' hbind' =>
        cases hopen.symm.trans hopen'
        cases hwords.symm.trans hwords'
        cases hfind.symm.trans hfind'
        cases hbind.symm.trans hbind'
      | called hopen' hwords' hfind' hbind' hcall' hwrong =>
        cases hopen.symm.trans hopen'
        cases hwords.symm.trans hwords'
        cases hfind.symm.trans hfind'
        cases hbind.symm.trans hbind'
        cases hcall.symm.trans hcall'
        exact hwrong.resolve_left (by simp)
  | failed hwords hfind hbind hcall =>
    exact iff_of_true (hmarked (by simp)) (.called hopen hwords hfind hbind hcall (.inl rfl))

/-- A line that is dispatched from a scope without a mark has one afterwards exactly if it goes
wrong. -/
lemma isErrored_iff_goesWrong (hinvoke : Restoring invoke) (hscopes : m.shell.scopes ≠ [])
    (hunmarked : m.isErrored = false) (hreading : m.reading raw = .line line)
    (hscript : line.script? = none)
    (h : Handles invoke context raw location false m ts c n) :
    n.isErrored = true ↔ GoesWrong invoke line m := by
  have htargets := (script?_eq_none hscript).2
  cases h with
  | skipped hskip => cases hreading.symm.trans hskip
  | left hleave => cases hreading.symm.trans hleave
  | unread htrouble => cases hreading.symm.trans htrouble
  | unopened hreading' hrefuses =>
    cases hreading.symm.trans hreading'
    rw [shown_false] at hrefuses
    have hrefuses' := hrefuses
    cases hrefuses with
    | nameless hnameless => cases hscript.symm.trans hnameless
    | target _ hopen =>
      rw [htargets] at hopen
      exact iff_of_true (isErrored_fail_of_refuses hrefuses' hscopes location) (.target hopen)
  | performed hreading' hperforms =>
    cases hreading.symm.trans hreading'
    rw [shown_false] at hperforms
    cases hperforms with
    | script hscript' _ _ _ => cases hscript.symm.trans hscript'
    | command _ hopen hattempts =>
      rw [htargets] at hopen
      rw [isErrored_detach]
      exact isErrored_iff_of_attempts hinvoke hopen hscopes hunmarked hattempts

end Marks

/-! ### The policy of the line's scope -/

section Policies

variable {invoke : Invoke} {context : Option Context} {raw : Bytes} {location : Location}
  {m n : Machine} {s : Scope} {rest : List Scope} {ts : List Trouble} {c : Continuation}

lemma keepsPolicy_fail (location : Location) (message : Bytes) (m : Machine) :
    KeepsPolicy m (fail location message m) :=
  trans_of KeepsPolicy (.of_scopes (Exchange.inputOutput.report _ _ m).restores.scopes)
    (KeepsPolicy.setErrored true _)

lemma keepsPolicy_called (rs : Redirects) (words : List Bytes) (m : Machine) :
    KeepsPolicy m (called words (attached rs (m.setErrored true))) := by
  have hmarked := KeepsPolicy.setErrored true m
  have hattached : KeepsPolicy (m.setErrored true) (attached rs (m.setErrored true)) :=
    .of_scopes rfl
  have hcleared := KeepsPolicy.setErrored false (attached rs (m.setErrored true))
  have hnoted : KeepsPolicy ((attached rs (m.setErrored true)).setErrored false)
      (called words (attached rs (m.setErrored true))) :=
    .of_scopes (exchange_record _ (.runCommand words)).restores.scopes
  exact trans_of KeepsPolicy (trans_of KeepsPolicy hmarked hattached)
    (trans_of KeepsPolicy hcleared hnoted)

variable (hinvoke : Restoring invoke)
include hinvoke

lemma keepsPolicy_runMarked (context : Option Context) (source : Source) :
    ShellM.Maintains KeepsPolicy (runMarked invoke context source) := by
  refine ShellM.maintains_bind (fun m o m' hrun => ?_) fun o => ?_
  · exact .of_scopes (hinvoke _ _ _ m o m' hrun).scopes
  · split
    · exact ShellM.maintains_modify fun m => KeepsPolicy.setErrored true m
    · exact ShellM.maintains_pure ()

lemma keepsPolicy_or_unmarked_of_attempts (hscopes : m.shell.scopes = s :: rest)
    (hinteractive : s.interactive = false) (hfirm : m.host.table.Firm) {words : List Bytes}
    {rs rs' : Redirects} (h : Attempts invoke location words rs m ts rs' n) :
    KeepsPolicy m n ∨ n.isErrored = false := by
  have hcalled : (called words (attached rs (m.setErrored true))).shell.scopes =
      { s with errored := false } :: rest := by
    have hattached : (attached rs (m.setErrored true)).shell.scopes = _ :=
      scopes_setErrored hscopes true
    exact scopes_called hattached words
  have hnoted : ∀ message e,
      KeepsPolicy m ((report location message (m.setErrored true)).record e) := fun message e =>
    trans_of KeepsPolicy (KeepsPolicy.setErrored true m)
      (.of_scopes (scopes_record_report location message e _))
  cases h with
  | wordless _ => exact .inl rfl
  | unknown _ _ => exact .inl (hnoted _ _)
  | rejected _ _ _ => exact .inl (hnoted _ _)
  | @done name _ command args n hwords hfind hbind hcall =>
    have hbody : CommandBody.Firm command.body := hfirm name command hfind
    rcases keepsPolicy_or_unmarked_of_call hinvoke hcalled hinteractive hbody hcall with
      hkept | ⟨-, hunmarked⟩
    · exact .inl (trans_of KeepsPolicy (keepsPolicy_called rs words m) hkept)
    · exact .inr hunmarked
  | @failed name _ command args f n hwords hfind hbind hcall =>
    have hbody : CommandBody.Firm command.body := hfirm name command hfind
    -- the command for policies does not fail, so that another one is called
    rcases keepsPolicy_or_unmarked_of_call hinvoke hcalled hinteractive hbody hcall with
      hkept | ⟨hnone, -⟩
    · have hreported : KeepsPolicy n
          ((report location f.message n).record (.invalidInvocation words f.message)) :=
        .of_scopes (scopes_record_report _ _ _ n)
      have hmarked := trans_of KeepsPolicy hreported (KeepsPolicy.setErrored true _)
      exact .inl (trans_of KeepsPolicy (keepsPolicy_called rs words m)
        (trans_of KeepsPolicy hkept hmarked))
    · cases hnone

/-- However a line is handled in a scope that is not interactive, the policy of the scope is as it
was, or the scope is left without a mark. -/
lemma keepsPolicy_or_unmarked_of_handles (hscopes : m.shell.scopes = s :: rest)
    (hinteractive : s.interactive = false) (hfirm : m.host.table.Firm)
    (h : Handles invoke context raw location false m ts c n) :
    KeepsPolicy m n ∨ n.isErrored = false := by
  cases h with
  | skipped _ => rw [shown_false]; exact .inl rfl
  | left _ => rw [shown_false]; exact .inl rfl
  | unread _ => rw [shown_false]; exact .inl (keepsPolicy_fail _ _ m)
  | @unopened line f n _ hrefuses =>
    rw [shown_false] at hrefuses
    refine .inl ?_
    cases hrefuses with
    | nameless _ => exact keepsPolicy_fail _ _ m
    | target _ hopen =>
      exact trans_of KeepsPolicy (.of_scopes (scopes_openAll hopen)) (keepsPolicy_fail _ _ n)
  | @performed line ts rs n _ hperforms =>
    rw [shown_false] at hperforms
    have hdetached : KeepsPolicy n (detach rs location n) := .of_scopes (scopes_detach _ _ n)
    suffices h : KeepsPolicy m n ∨ n.isErrored = false by
      refine h.imp (fun hkept => trans_of KeepsPolicy hkept hdetached) fun hunmarked => ?_
      rwa [isErrored_detach]
    cases hperforms with
    | @script name rs n₁ n _ _ hopen hrun =>
      have hopened := scopes_openAll hopen
      have hattached : KeepsPolicy m (rs.attach n₁).2 := .of_scopes hopened
      exact .inl (trans_of KeepsPolicy hattached (keepsPolicy_runMarked hinvoke _ _ _ _ _ hrun))
    | @command rs rs' n₁ n ts _ hopen hattempts =>
      have htable : n₁.host.table.Firm := by rwa [table_openAll hopen]
      have hopened := (scopes_openAll hopen).trans hscopes
      refine (keepsPolicy_or_unmarked_of_attempts hinvoke hopened hinteractive htable
        hattempts).imp_left fun hkept => ?_
      exact trans_of KeepsPolicy (.of_scopes (scopes_openAll hopen)) hkept

end Policies

/-! ### After the line -/

section Loop

variable {invoke : Invoke} {context : Option Context} {n : Machine} {s : Scope}
  {rest : List Scope}

/-- A scope that is not interactive and has no mark, or stops, waits for nothing; it ends the
invocation if it has the mark. -/
lemma ending_of_stop (hscopes : n.shell.scopes = s :: rest) (hinteractive : s.interactive = false)
    (hpolicy : s.policy = .stop ∨ s.errored = false) :
    n.ending = (if s.errored then some .stopped else none) ∧ n.waits = false := by
  rw [Machine.ending, Machine.waits, hscopes]
  show s.ending = _ ∧ s.waits = false
  rw [Scope.ending, Scope.waits, hinteractive]
  cases herrored : s.errored with
  | false => simp
  | true =>
    have hstop : s.policy = .stop := hpolicy.resolve_right (by simp [herrored])
    simp [hstop]

lemma announce_of_not_waits (hwaits : n.waits = false) : n.announce = n := by
  rw [Machine.announce]
  split
  · rfl
  · rename_i s hs
    have hnot : s.waits = false := by simpa [Machine.waits, hs] using hwaits
    rw [hnot, if_neg Bool.false_ne_true]

/-- The invocation after its only line has been handled. -/
def afterLine (invoke : Invoke) (context : Option Context) (fuel : Nat) :
    Continuation → Machine → Option ((Option Failure × Reader) × Machine)
  | .leave, n => some ((none, .single none), n)
  | .goOn, n => loop readLine invoke context false fuel ⟨.single none, none, ⟨[], 1⟩⟩ n

/-- The only line is read at once and handled. -/
lemma loop_of_line (hcancelled : n.isCancelled context = false)
    (hscopes : n.shell.scopes = s :: rest) (hinteractive : s.interactive = false)
    (hunmarked : s.errored = false) (fuel : Nat) (line : Bytes) :
    loop readLine invoke context false (fuel + 1) ⟨.single (some line), none, {}⟩ n =
      (handle invoke context line ⟨[], 1⟩ false n).bind fun q =>
        afterLine invoke context fuel q.1 q.2 := by
  obtain ⟨hending, hwaits⟩ := ending_of_stop hscopes hinteractive (.inr hunmarked)
  have hannounce := announce_of_not_waits hwaits
  rw [hunmarked, if_neg Bool.false_ne_true] at hending
  have hcancelled' : n.announce.isCancelled context = false := by rwa [hannounce]
  have hcarry : carry n none = none := by rw [carry, hwaits]; rfl
  rw [loop_of_announce hcancelled' hending, takeLine, hannounce, hcarry]
  refine congrArg (Option.bind _) (funext fun q => ?_)
  obtain ⟨c, n'⟩ := q
  cases c <;> rfl

/-- When its only line has been handled, the invocation ends: with the failure that the policy
stopped it if the scope has the mark, and without a failure otherwise. -/
lemma exists_afterLine (invoke : Invoke) {c : Continuation}
    (hcancelled : n.isCancelled context = false) (hscopes : n.shell.scopes = s :: rest)
    (hdone : s.Done c) (fuel : Nat) :
    ∃ n', afterLine invoke context (fuel + 1) c n =
        some ((if s.errored then some .stopped else none, .single none), n') ∧ Exchange n n' := by
  cases c with
  | leave =>
    rw [hdone.leave rfl]
    exact ⟨n, rfl, .refl n⟩
  | goOn =>
    obtain ⟨hending, hwaits⟩ := ending_of_stop hscopes hdone.interactive hdone.policy
    have hannounce := announce_of_not_waits hwaits
    cases herrored : s.errored with
    | true =>
      rw [herrored, if_pos rfl] at hending
      rw [afterLine, loop_of_ending hcancelled hending, if_pos rfl]
      exact ⟨_, rfl, Exchange.inputOutput.writeLine .error Failure.stopped.message n⟩
    | false =>
      rw [herrored, if_neg Bool.false_ne_true] at hending
      have hcancelled' : n.announce.isCancelled context = false := by rwa [hannounce]
      rw [afterLine, loop_of_announce hcancelled' hending, takeLine, hannounce,
        if_neg Bool.false_ne_true]
      refine ⟨n, ?_, .refl n⟩
      rw [carry, hwaits]
      rfl

/-- An invocation that returns after its only line, and is not cancelled, ends like this. -/
lemma eq_of_afterLine (hinvoke : Restoring invoke) {c : Continuation} {fuel : Nat}
    {p : (Option Failure × Reader) × Machine} (h : afterLine invoke context fuel c n = some p)
    (hcancelled : p.2.isCancelled context = false) (hscopes : n.shell.scopes = s :: rest)
    (hdone : s.Done c) :
    p.1 = (if s.errored then some .stopped else none, .single none) ∧ Exchange n p.2 := by
  cases c with
  | leave =>
    rw [hdone.leave rfl]
    obtain rfl := Option.some.inj h
    exact ⟨rfl, .refl n⟩
  | goOn =>
    cases fuel with
    | zero => cases h
    | succ fuel =>
      have hkeeps : Keeps n p.2 :=
        maintains_loop hinvoke Keeps.answers.readLine _ _ _ _ _ _ _ h
      obtain ⟨n', hafter, hexchange⟩ := exists_afterLine invoke
        (hkeeps.isCancelled_eq_false hcancelled) hscopes hdone fuel
      obtain rfl := Option.some.inj (hafter.symm.trans h)
      exact ⟨rfl, hexchange⟩

end Loop

/-! ### A single line from its start to its end -/

section Whole

variable {context : Option Context} {line definitions : Bytes} {defs : List Definition}
  {m : Machine}

/-- The machine on which a single line is handled. -/
def entered (context : Option Context) (defs : List Definition) (m : Machine) : Machine :=
  enter context { policy := .stop } defs m

lemma scopes_entered (context : Option Context) (defs : List Definition) (m : Machine) :
    (entered context defs m).shell.scopes = { policy := .stop } :: m.shell.scopes := by
  obtain ⟨sessions, heq⟩ := enter_eq context { policy := .stop } defs m
  rw [entered, heq]

lemma isErrored_entered (context : Option Context) (defs : List Definition) (m : Machine) :
    (entered context defs m).isErrored = false := by
  rw [isErrored, scopes_entered]
  rfl

lemma table_entered (context : Option Context) (defs : List Definition) (m : Machine) :
    (entered context defs m).host.table = m.host.table := by
  obtain ⟨sessions, heq⟩ := enter_eq context { policy := .stop } defs m
  rw [entered, heq]

lemma runLine_apply (hparse : DefinitionList.parse definitions = .ok defs) (fuel : Nat) :
    m.runLine (fuel + 1) context line definitions =
      (loop readLine (invoke fuel) context false fuel ⟨.single (some line), none, {}⟩
        (entered context defs m)).map (conclusion m.shell.context) :=
  invocation_of_ok (invoke fuel) fuel context rfl hparse

/-- The scope of a single line when the line has been handled. -/
lemma exists_scope_of_handle (hfirm : m.host.table.Firm) {depth : Nat} {c : Continuation}
    {n : Machine}
    (h : handle (invoke depth) context line ⟨[], 1⟩ false (entered context defs m) = some (c, n)) :
    ∃ s : Scope, n.shell.scopes = s :: m.shell.scopes ∧ n.isErrored = s.errored ∧ s.Done c := by
  have hstart := scopes_entered context defs m
  have hkeeps : Keeps (entered context defs m) n :=
    (rounds_keeps (restoring_invoke depth)).handle context _ _ _ _ _ _ h
  have hinteractive := hkeeps.interactive
  have houter := hkeeps.outer
  rw [hstart] at hinteractive houter
  -- the line can change its own scope, but not which scopes there are
  have hne : n.shell.scopes ≠ [] := by
    intro hnil
    simp [hnil] at hinteractive
  obtain ⟨s, rest, hscopes⟩ := List.exists_cons_of_ne_nil hne
  rw [hscopes] at hinteractive houter
  obtain rfl : rest = m.shell.scopes := houter
  have hmark : n.isErrored = s.errored := by
    rw [isErrored, hscopes]
    rfl
  obtain ⟨ts, hhandles⟩ := handle_eq_some_iff.1 h
  refine ⟨s, hscopes, hmark, Option.some.inj hinteractive, ?_, ?_⟩
  · have htable : (entered context defs m).host.table.Firm := by rwa [table_entered]
    rw [← hmark]
    refine (keepsPolicy_or_unmarked_of_handles (restoring_invoke depth) hstart rfl htable
      hhandles).imp_left fun hkept => ?_
    rw [KeepsPolicy, policy?, policy?, hscopes, hstart] at hkept
    exact Option.some.inj hkept
  · rintro rfl
    rw [← hmark]
    cases hhandles with
    | left _ => rw [shown_false, isErrored_entered]

/-- Ending an invocation does not take back that a context is cancelled. -/
lemma isCancelled_of_conclusion {outer : Option Context}
    {p : (Option Failure × Reader) × Machine}
    (h : (conclusion outer p).2.isCancelled context = false) :
    p.2.isCancelled context = false := by
  have hclosed := (Exchange.inputOutput.closeReader p.1.2 (leave outer p.2)).keeps
  have hleft := hclosed.isCancelled_eq_false h
  obtain ⟨sessions, heq⟩ := leave_eq outer p.2
  rw [heq] at hleft
  cases context with
  | none => rfl
  | some c => exact hleft

/-- Of the commands that come with the shell, none sets a policy but the one for policies. -/
theorem firm_standard : CommandTable.standard.Firm :=
  fun name c hc => (CommandTable.usual_standard name c hc).firm

/-- **A single line tells what became of it.**  A single line that returns, and is not cancelled,
returns no failure or the failure that its policy stopped it; it returns the latter exactly if its
own scope has the mark when the line has been handled.  For a line that is dispatched, this is so
exactly if a target cannot be opened, no command has the name, the words do not fit its
declaration, or the command fails, crashes or leaves the scope marked.  Whenever handling the line
comes to an end, so does the single line. -/
theorem runLine_returns_mark (hparse : DefinitionList.parse definitions = .ok defs)
    (hfirm : m.host.table.Firm) :
    (∀ depth o m', m.runLine (depth + 1) context line definitions = some (o, m') →
      m'.isCancelled context = false →
      ∃ c n, handle (invoke depth) context line ⟨[], 1⟩ false (entered context defs m) =
          some (c, n) ∧ n.shell.scopes.tail = m.shell.scopes ∧
        o = ⟨n.isErrored, if n.isErrored then some .stopped else none⟩ ∧
        ∀ l, (entered context defs m).reading line = .line l → l.script? = none →
          (n.isErrored = true ↔ GoesWrong (invoke depth) l (entered context defs m))) ∧
    ∀ depth c n, handle (invoke (depth + 2)) context line ⟨[], 1⟩ false
        (entered context defs m) = some (c, n) → n.isCancelled context = false →
      ∃ m', m.runLine (depth + 3) context line definitions =
        some (⟨n.isErrored, if n.isErrored then some .stopped else none⟩, m') := by
  have hstart := scopes_entered context defs m
  constructor
  · intro depth o m' hrun hcancelled
    rw [runLine_apply hparse] at hrun
    obtain ⟨p, hloop, hconclude⟩ := Option.map_eq_some_iff.1 hrun
    rw [show m' = (conclusion m.shell.context p).2 by rw [hconclude]] at hcancelled
    -- what is not cancelled at its end was not cancelled when the loop looked
    have hend := isCancelled_of_conclusion hcancelled
    have hinvoke := restoring_invoke depth
    have hkeeps : Keeps (entered context defs m) p.2 :=
      maintains_loop hinvoke Keeps.answers.readLine _ _ _ _ _ _ _ hloop
    cases depth with
    | zero => cases hloop
    | succ depth =>
      rw [loop_of_line (hkeeps.isCancelled_eq_false hend) hstart rfl rfl] at hloop
      obtain ⟨⟨c, n⟩, hhandle, hafter⟩ := Option.bind_eq_some_iff.1 hloop
      obtain ⟨s, hscopes, hmark, hdone⟩ := exists_scope_of_handle hfirm hhandle
      obtain ⟨hp, hexchange⟩ := eq_of_afterLine hinvoke hafter hend hscopes hdone
      have hsame : p.2.isErrored = n.isErrored :=
        isErrored_eq_of_scopes hexchange.restores.scopes
      refine ⟨c, n, hhandle, by rw [hscopes, List.tail_cons], ?_, fun l hreading hscript => ?_⟩
      · obtain ⟨rfl, -⟩ := Prod.mk.inj hconclude
        rw [hsame, hp, hmark]
      · obtain ⟨ts, hhandles⟩ := handle_eq_some_iff.1 hhandle
        exact isErrored_iff_goesWrong hinvoke (by simp [hstart]) (isErrored_entered context defs m)
          hreading hscript hhandles
  · intro depth c n hhandle hcancelled
    have hkeeps : Keeps (entered context defs m) n :=
      (rounds_keeps (restoring_invoke _)).handle context _ _ _ _ _ _ hhandle
    obtain ⟨s, hscopes, hmark, hdone⟩ := exists_scope_of_handle hfirm hhandle
    obtain ⟨n', hafter, hexchange⟩ :=
      exists_afterLine (invoke (depth + 2)) hcancelled hscopes hdone depth
    have hsame : n'.isErrored = n.isErrored := isErrored_eq_of_scopes hexchange.restores.scopes
    refine ⟨leave m.shell.context n', ?_⟩
    rw [runLine_apply hparse, loop_of_line (hkeeps.isCancelled_eq_false hcancelled) hstart rfl
      rfl, hhandle]
    show (afterLine (invoke (depth + 2)) context (depth + 1) c n).map _ = _
    rw [hafter, Option.map_some, conclusion, hsame, hmark]
    rfl

end Whole

/-- A line that runs a script which halts: the script is resumed and ends, and the line is
marked for it. -/
theorem runLine_returns_mark_suspended :
    let m : Machine :=
      { host := { table := CommandTable.standard, plan := [{ release := .resume }]
                  store := { entries := [("/a", .file "on error halt\nno\n"),
                    ("/", .directory)] } } }
    DefinitionList.parse [] = .ok [] ∧ m.host.table.Firm ∧
      ∃ m' c n, m.runLine 8 none "iocshLoad a" [] = some (⟨true, some .stopped⟩, m') ∧
        m'.isCancelled none = false ∧ m'.host.suspensions = 1 ∧
        handle (invoke 7) none "iocshLoad a" ⟨[], 1⟩ false (entered none [] m) = some (c, n) ∧
        n.isErrored = true := by
  intro m
  have hparse : DefinitionList.parse [] = .ok [] := DefinitionList.parse_nil
  have hreturns : (m.runLine 8 none "iocshLoad a" []).any (fun p =>
      p.1 = ⟨true, some .stopped⟩ ∧ p.2.host.suspensions = 1) = true := by
    decide +kernel
  obtain ⟨⟨o, m'⟩, hrun, hwhat⟩ := (Option.any_eq_true _ _).1 hreturns
  obtain ⟨rfl, hsuspended⟩ := of_decide_eq_true hwhat
  obtain ⟨c, n, hhandle, -, houtcome, -⟩ :=
    (runLine_returns_mark hparse (m := m) firm_standard).1 7 _ m' hrun rfl
  exact ⟨hparse, firm_standard, m', c, n, hrun, rfl, hsuspended, hhandle,
    (congrArg Outcome.errored houtcome).symm⟩

end Interpreter

end ConsoleShell
