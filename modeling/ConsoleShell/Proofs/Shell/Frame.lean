/-
What running lines leaves alone.

While an invocation runs, its lines change files, the environment, definitions and the mark
and the policy of its own scope.  They leave alone the context, the redirections of the line
that is running, the three streams, the scopes further out and whether the invocation is
interactive.  This file states that frame as a relation between the machine before and
after, together with the balance between scopes and definitions that holds whenever a
command is called, and shows that every answer to a command stays inside the frame.
-/
import ConsoleShell.Proofs.Shell.Exchange

namespace ConsoleShell

variable {σ : Type}

/-! ### Actions that stay inside a relation -/

/-- Whenever the action returns, the machines before and after it are related. -/
def ShellM.Maintains {α : Type} (R : Machine σ → Machine σ → Prop) (x : ShellM σ α) : Prop :=
  ∀ m a m', x m = some (a, m') → R m m'

namespace ShellM

variable {α β : Type} {R : Machine σ → Machine σ → Prop}

/-- An action that goes on after another returns if both return. -/
lemma bind_eq_some {x : ShellM σ α} {f : α → ShellM σ β} {m m' : Machine σ} {b : β}
    (h : (x >>= f) m = some (b, m')) : ∃ a m₁, x m = some (a, m₁) ∧ f a m₁ = some (b, m') := by
  have h' : ((x m).bind fun p => f p.1 p.2) = some (b, m') := h
  cases hx : x m with
  | none =>
    rw [hx] at h'
    exact absurd h' (by simp)
  | some p =>
    rw [hx] at h'
    exact ⟨p.1, p.2, rfl, h'⟩

lemma pure_eq_some {a b : α} {m m' : Machine σ} (h : (pure a : ShellM σ α) m = some (b, m')) :
    a = b ∧ m = m' := by
  have h' : some (a, m) = some (b, m') := h
  simpa using h'

lemma modify_eq_some {f : Machine σ → Machine σ} {m m' : Machine σ} {u : Unit}
    (h : (modify f : ShellM σ Unit) m = some (u, m')) : f m = m' := by
  have h' : some ((), f m) = some (u, m') := h
  simpa using h'

lemma modifyGet_eq_some {f : Machine σ → α × Machine σ} {m m' : Machine σ} {a : α}
    (h : (modifyGet f : ShellM σ α) m = some (a, m')) : f m = (a, m') := by
  have h' : some (f m) = some (a, m') := h
  simpa using h'

lemma get_eq_some {m m' n : Machine σ} (h : (get : ShellM σ (Machine σ)) m = some (n, m')) :
    m = n ∧ m = m' := by
  have h' : some (m, m) = some (n, m') := h
  simpa using h'

lemma bind_apply (x : ShellM σ α) (f : α → ShellM σ β) (m : Machine σ) :
    (x >>= f) m = (x m).bind fun p => f p.1 p.2 := rfl

lemma get_bind (f : Machine σ → ShellM σ β) (m : Machine σ) : (get >>= f) m = f m m := rfl

lemma modify_bind (g : Machine σ → Machine σ) (f : Unit → ShellM σ β) (m : Machine σ) :
    (modify g >>= f) m = f () (g m) := rfl

lemma modifyGet_bind (g : Machine σ → α × Machine σ) (f : α → ShellM σ β) (m : Machine σ) :
    (modifyGet g >>= f) m = f (g m).1 (g m).2 := rfl

lemma bind_pure_of_const (x : ShellM σ α) (b : β) (m : Machine σ) :
    (x >>= fun _ => pure b) m = (x m).map fun p => (b, p.2) := by
  show ((x m).bind fun p => some (b, p.2)) = _
  cases x m with
  | none => rfl
  | some p => rfl

lemma maintains_pure [Std.Refl R] (a : α) : Maintains R (pure a : ShellM σ α) := by
  intro m b m' h
  obtain ⟨-, rfl⟩ := pure_eq_some h
  exact Std.Refl.refl m

lemma maintains_get [Std.Refl R] : Maintains R (get : ShellM σ (Machine σ)) := by
  intro m n m' h
  obtain ⟨-, rfl⟩ := get_eq_some h
  exact Std.Refl.refl m

lemma maintains_modify {f : Machine σ → Machine σ} (hf : ∀ m, R m (f m)) :
    Maintains R (modify f : ShellM σ Unit) := by
  intro m u m' h
  obtain rfl := modify_eq_some h
  exact hf m

lemma maintains_modifyGet {f : Machine σ → α × Machine σ} (hf : ∀ m, R m (f m).2) :
    Maintains R (modifyGet f : ShellM σ α) := by
  intro m a m' h
  have hm := hf m
  rw [modifyGet_eq_some h] at hm
  exact hm

lemma maintains_bind [IsTrans (Machine σ) R] {x : ShellM σ α} {f : α → ShellM σ β}
    (hx : Maintains R x) (hf : ∀ a, Maintains R (f a)) : Maintains R (x >>= f) := by
  intro m b m' h
  obtain ⟨a, m₁, h₁, h₂⟩ := bind_eq_some h
  exact IsTrans.trans _ _ _ (hx m a m₁ h₁) (hf a m₁ b m' h₂)

/-- Whenever the action returns, its result has the property. -/
def Yields (P : α → Prop) (x : ShellM σ α) : Prop := ∀ m a m', x m = some (a, m') → P a

lemma yields_pure {P : α → Prop} {a : α} (h : P a) : Yields P (pure a : ShellM σ α) := by
  intro m b m' hb
  obtain ⟨rfl, -⟩ := pure_eq_some hb
  exact h

lemma yields_bind {P : β → Prop} {x : ShellM σ α} {f : α → ShellM σ β}
    (h : ∀ a, Yields P (f a)) : Yields P (x >>= f) := by
  intro m b m' hb
  obtain ⟨a, m₁, -, h₂⟩ := bind_eq_some hb
  exact h a m₁ b m' h₂

end ShellM

/-! ### Routines that stay inside a relation -/

namespace Machine.Answers

variable [FileBase σ] {R : Machine σ → Machine σ → Prop} [Std.Refl R]
  (h : Answers (fun _ => True) R)
include h

lemma rememberScript (path : Bytes) (m : Machine σ) :
    R m (Interpreter.rememberScript path m) := by
  rw [Interpreter.rememberScript]
  split
  · split
    · exact h.setEnvironment [] (.inr trivial) _ m
    · exact refl_of R m
  · exact refl_of R m

variable [IsTrans (Machine σ) R] {invoke : Interpreter.Invoke σ}
  (hinvoke : ∀ context source definitions,
    ShellM.Maintains R (invoke context source definitions))
include hinvoke

lemma load (context : Option Context) (path definitions : Bytes) :
    ShellM.Maintains R (Interpreter.load invoke context path definitions) :=
  ShellM.maintains_bind (ShellM.maintains_modify (h.rememberScript path)) fun _ =>
    hinvoke context (.ofPath path) definitions

/-- Whatever a routine does, the relation holds across it if it holds across the invocations that
the routine starts. -/
lemma perform {α : Type} (r : Routine α) :
    ShellM.Maintains R (Interpreter.perform invoke r) := by
  induction r with
  | done a => exact ShellM.maintains_pure a
  | ask q next ih =>
    exact ShellM.maintains_bind (ShellM.maintains_modifyGet fun m => h.answer trivial m) ih
  | run line definitions next ih =>
    exact ShellM.maintains_bind ShellM.maintains_get fun m =>
      ShellM.maintains_bind (hinvoke _ _ _) ih
  | load path definitions next ih =>
    exact ShellM.maintains_bind ShellM.maintains_get fun m =>
      ShellM.maintains_bind (h.load hinvoke _ _ _) ih

end Machine.Answers

/-! ### Scopes and definitions in balance -/

/-- The number of scopes of the definitions, none if there are no definitions. -/
def Shell.depth (s : Shell) : Option Nat := s.definitions.map Definitions.depth

/-- Outside invocations a shell has no definitions.  Inside, the definitions have a scope of
their own for each running invocation, and one around them. -/
def Shell.Balanced (s : Shell) : Prop :=
  s.depth = if s.scopes.isEmpty then none else some (1 + s.scopes.length)

/-- The command found definitions with one scope more than there are running invocations. -/
def Call.Ready (c : Call) : Prop :=
  ∃ d, c.shell.definitions = some d ∧ d.depth = 1 + c.shell.scopes.length

lemma Definitions.depth_clear (d : Definitions) (name : Bytes) :
    (d.clear name).depth = d.depth := by
  simp [Definitions.depth, Definitions.clear]

lemma Definitions.depth_push (d : Definitions) : d.push.depth = d.depth + 1 := rfl

lemma Definitions.depth_install (d : Definitions) (xs : List Definition) :
    (d.install xs).depth = d.depth := by
  unfold Definitions.install
  induction xs generalizing d with
  | nil => rfl
  | cons x xs ih => exact ih (d.put x)

lemma Definitions.depth_pop {d : Definitions} (h : 1 < d.depth) : d.pop.depth + 1 = d.depth := by
  obtain ⟨inner, outer⟩ := d
  cases outer with
  | nil => exact absurd h (lt_irrefl 1)
  | cons f fs => rfl

namespace Machine

/-- The running shell and the operator's shell are in balance. -/
def Balanced (m : Machine σ) : Prop := m.shell.Balanced ∧ m.host.operator.Balanced

/-- What the lines of an invocation leave alone. -/
structure Keeps (m m' : Machine σ) : Prop where
  context : m'.shell.context = m.shell.context
  attachments : m'.shell.attachments = m.shell.attachments
  streams : m'.shell.streams = m.shell.streams
  /-- The scopes around the innermost one. -/
  outer : m'.shell.scopes.tail = m.shell.scopes.tail
  /-- Whether there is an innermost scope, and whether it is interactive. -/
  interactive :
    m'.shell.scopes.head?.map Scope.interactive = m.shell.scopes.head?.map Scope.interactive
  /-- No cancelled context is taken back. -/
  cancelled : m.host.cancelled ⊆ m'.host.cancelled
  balanced : m.Balanced → m'.Balanced
  /-- The commands that are called meanwhile find their definitions in balance. -/
  calls : ∃ new, m'.host.calls = new ++ m.host.calls ∧
    (m.Balanced → m.shell.scopes ≠ [] → ∀ c ∈ new, c.Ready)

namespace Keeps

variable {m m' m'' : Machine σ}

lemma refl (m : Machine σ) : Keeps m m where
  context := rfl
  attachments := rfl
  streams := rfl
  outer := rfl
  interactive := rfl
  cancelled := List.Subset.refl _
  balanced := id
  calls := ⟨[], rfl, by simp⟩

/-- The innermost scope stays where it is. -/
lemma scopes_eq_nil_iff (h : Keeps m m') : m'.shell.scopes = [] ↔ m.shell.scopes = [] := by
  have hi := h.interactive
  cases hs : m.shell.scopes <;> cases hs' : m'.shell.scopes <;> simp [hs, hs'] at hi ⊢

lemma trans (h : Keeps m m') (h' : Keeps m' m'') : Keeps m m'' where
  context := h'.context.trans h.context
  attachments := h'.attachments.trans h.attachments
  streams := h'.streams.trans h.streams
  outer := h'.outer.trans h.outer
  interactive := h'.interactive.trans h.interactive
  cancelled := List.Subset.trans h.cancelled h'.cancelled
  balanced := fun hb => h'.balanced (h.balanced hb)
  calls := by
    obtain ⟨new, hnew, hready⟩ := h.calls
    obtain ⟨new', hnew', hready'⟩ := h'.calls
    refine ⟨new' ++ new, by rw [hnew', hnew, List.append_assoc], fun hb hs c hc => ?_⟩
    rcases List.mem_append.1 hc with hc | hc
    · exact hready' (h.balanced hb) (fun hnil => hs (h.scopes_eq_nil_iff.1 hnil)) c hc
    · exact hready hb hs c hc

/-- A context that is not cancelled now was not cancelled before. -/
lemma isCancelled_eq_false (h : Keeps m m') {context : Option Context}
    (hm : m'.isCancelled context = false) : m.isCancelled context = false := by
  cases context with
  | none => rfl
  | some c =>
    have hmem : c ∉ m'.host.cancelled := by simpa [isCancelled] using hm
    simpa [isCancelled] using fun hc => hmem (h.cancelled hc)

instance : Std.Refl (@Keeps σ) := ⟨refl⟩

instance : IsTrans (Machine σ) Keeps := ⟨fun _ _ _ => trans⟩

/-- A change that does not touch scopes, streams, definitions and calls at all. -/
lemma of_eq (hcontext : m'.shell.context = m.shell.context)
    (hattachments : m'.shell.attachments = m.shell.attachments)
    (hstreams : m'.shell.streams = m.shell.streams) (hscopes : m'.shell.scopes = m.shell.scopes)
    (hdepth : m'.shell.depth = m.shell.depth) (hoperator : m'.host.operator = m.host.operator)
    (hcalls : m'.host.calls = m.host.calls) (hcancelled : m.host.cancelled ⊆ m'.host.cancelled) :
    Keeps m m' where
  context := hcontext
  attachments := hattachments
  streams := hstreams
  outer := by rw [hscopes]
  interactive := by rw [hscopes]
  cancelled := hcancelled
  balanced := by
    rintro ⟨hshell, hop⟩
    refine ⟨?_, by rw [hoperator]; exact hop⟩
    rw [Shell.Balanced, hdepth, hscopes]
    exact hshell
  calls := ⟨[], hcalls, by simp⟩

end Keeps

lemma Exchange.keeps {m m' : Machine σ} (h : Exchange m m') : Keeps m m' := by
  obtain ⟨_, _, _, _, _, _, _, _, rfl, hcancelled⟩ := h
  exact .of_eq rfl rfl rfl rfl rfl rfl rfl hcancelled

/-! ### Scopes, definitions and sessions -/

/-- A change of the innermost scope that does not make it interactive or stop it from being so. -/
lemma keeps_modifyScope {f : Scope → Scope} (hf : ∀ s, (f s).interactive = s.interactive)
    (m : Machine σ) : Keeps m (m.modifyScope f) := by
  unfold modifyScope
  split
  · exact .refl m
  · rename_i s rest hs
    exact
      { context := rfl
        attachments := rfl
        streams := rfl
        outer := by rw [hs]; rfl
        interactive := by rw [hs]; exact congrArg some (hf s)
        cancelled := List.Subset.refl _
        balanced := by
          rintro ⟨hshell, hop⟩
          refine ⟨?_, hop⟩
          rw [Shell.Balanced, hs] at hshell
          exact hshell
        calls := ⟨[], rfl, by simp⟩ }

lemma keeps_setErrored (errored : Bool) (m : Machine σ) : Keeps m (m.setErrored errored) :=
  keeps_modifyScope (f := fun s => { s with errored }) (fun _ => rfl) m

lemma keeps_clearDefinition (m : Machine σ) (name : Bytes) :
    Keeps m (m.clearDefinition name) := by
  refine .of_eq rfl rfl rfl rfl ?_ rfl rfl (List.Subset.refl _)
  show (m.shell.definitions.map fun d => d.clear name).map Definitions.depth = _
  rw [Option.map_map]
  exact congrFun (congrArg Option.map (funext fun d => d.depth_clear name)) _

lemma keeps_setEnvironment (m : Machine σ) (e : Environment) : Keeps m (m.setEnvironment e) :=
  .of_eq rfl rfl rfl rfl rfl rfl rfl (List.Subset.refl _)

lemma keeps_halt (m : Machine σ) : Keeps m m.halt.2 :=
  .of_eq rfl rfl rfl rfl rfl rfl rfl (List.Subset.refl _)

lemma keeps_withdraw (m : Machine σ) (channel : Nat) : Keeps m (m.withdraw channel) :=
  .of_eq rfl rfl rfl rfl rfl rfl rfl (List.Subset.refl _)

lemma keeps_cancel (m : Machine σ) (context : Option Context) : Keeps m (m.cancel context) := by
  unfold cancel
  split
  · exact .refl m
  · exact .of_eq rfl rfl rfl rfl rfl rfl rfl (List.subset_cons_self _ _)

/-- Whatever a command asks of its shell, the frame is kept. -/
lemma Keeps.answers [FileBase σ] : Answers (fun _ => True) (@Keeps σ) where
  toInputOutput := Exchange.inputOutput.mono Exchange.keeps
  move _ _ := .of_eq rfl rfl rfl rfl rfl rfl rfl (List.Subset.refl _)
  books _ _ _ _ := .of_eq rfl rfl rfl rfl rfl rfl rfl (List.Subset.refl _)
  modifyScope hf _ m := keeps_modifyScope hf m
  record m _ := (m.exchange_record _).keeps
  setEnvironment _ _ e m := keeps_setEnvironment m e
  clearDefinition m _ := keeps_clearDefinition m _

end Machine

end ConsoleShell
