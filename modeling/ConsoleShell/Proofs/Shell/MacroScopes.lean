/-
Names in nested invocations.

Every invocation has a scope of definitions of its own, and behind the scopes stands the
environment.  A command that sets a variable removes the definitions of its name from all
scopes, so that the invocation that calls it and all those around it see the same value.  They
keep seeing it while the scopes inside them come and go, for as long as nothing that is called
gives the name another meaning.
-/
import ConsoleShell.Proofs.Commands.Usual
import ConsoleShell.Proofs.DefinitionList.Printing
import ConsoleShell.Proofs.Environment.Import
import ConsoleShell.Proofs.Line.Scoping
import ConsoleShell.Proofs.Shell.Idle
import ConsoleShell.Proofs.Shell.Invocation

namespace ConsoleShell

/-! ### What commands do to a name -/

/-- The query leaves a variable of the environment alone. -/
def Query.Spares (name : Bytes) : Query → Prop
  | .setEnvironment other _ => other ≠ name
  | .unsetEnvironment other => other ≠ name
  | _ => True

/-- A list of definitions has none of a name. -/
def DefinitionList.Spares (name definitions : Bytes) : Prop :=
  ∀ defs, parse definitions = .ok defs → ∀ d ∈ defs, d.name ≠ name

lemma DefinitionList.spares_nil (name : Bytes) : Spares name [] := by
  intro defs hdefs
  rw [parse_nil] at hdefs
  obtain rfl := Except.ok.inj hdefs
  exact List.forall_mem_nil _

/-- An invocation can start from a source with definitions without giving a name a meaning:
neither is it defined, nor is it the variable that keeps the path of the script. -/
structure Source.Spares (name : Bytes) (source : Source) (definitions : Bytes) : Prop where
  definitions : DefinitionList.Spares name definitions
  script : ∀ path, source = .script path → scriptVariable ≠ name

namespace Routine

variable {α : Type} {name : Bytes}

/-- The routine gives a name no other meaning. -/
def Spares (name : Bytes) (r : Routine α) : Prop := r.Asks (Query.Spares name) (Source.Spares name)

/-- Once the routine has started an invocation, it gives a name no other meaning. -/
def Settles (name : Bytes) : Routine α → Prop
  | .done _ => True
  | .ask _ next => ∀ a, (next a).Settles name
  | .run _ _ next => ∀ o, (next o).Spares name
  | .load _ _ next => ∀ o, (next o).Spares name

lemma Spares.settles {r : Routine α} (h : r.Spares name) : r.Settles name := by
  induction r with
  | done a => trivial
  | ask q next ih => exact fun a => ih a (h.2 a)
  | run line definitions next ih => exact h.2
  | load path definitions next ih => exact h.2

/-- The routine starts no invocation. -/
lemma Asks.settles {Q : Query → Prop} {r : Routine α} (h : r.Asks Q fun _ _ => False) :
    r.Settles name := by
  induction r with
  | done a => trivial
  | ask q next ih => exact fun a => ih a (h.2 a)
  | run line definitions next ih => exact h.1.elim
  | load path definitions next ih => exact h.1.elim

/-- The commands that come with the shell do nothing after an invocation but mark the line. -/
lemma Usual.settles {r : Routine Verdict} (h : r.Usual) : r.Settles name := by
  cases h with
  | still h => exact (h.asks (Q := fun _ => True) fun _ _ => trivial).settles
  | on args => exact (asks_on (Q := fun _ => True) (fun _ _ => trivial) (fun _ => trivial) args).settles
  | run line definitions failed => exact fun o => asks_markFailed trivial _
  | load path definitions failed => exact fun o => asks_markFailed trivial _

/-- The routine sets the variable of a name to a value, or unsets it. -/
inductive Assigns (name : Bytes) : Option Bytes → Routine Verdict → Prop
  | set {args : Arguments} {value : Bytes} (hname : args.string? 0 = some name)
      (hvalue : args.string? 1 = some value) (hvalid : Environment.isName name = true) :
      Assigns name (some value) (Commands.setEnvironment args)
  | unset {args : Arguments} (hname : args.string? 0 = some name) :
      Assigns name none (Commands.unsetEnvironment args)

end Routine

/-- The routine of the command that a line with these words calls. -/
def CommandTable.routine? (t : CommandTable) (words : List Bytes) : Option (Routine Verdict) :=
  (t.findCommand? (words.headD [])).bind fun c =>
    match Argument.bind t.handle c.signature words with
    | .error _ => none
    | .ok args => some (c.body args)

namespace Call

/-- The call gives a name no other meaning. -/
def Spares (t : CommandTable) (name : Bytes) (c : Call) : Prop :=
  ∀ r, t.routine? c.words = some r → r.Spares name

/-- Once the call has started an invocation, it gives a name no other meaning. -/
def Settles (t : CommandTable) (name : Bytes) (c : Call) : Prop :=
  ∀ r, t.routine? c.words = some r → r.Settles name

/-- The call sets the variable of a name to a value, or unsets it. -/
def Assigns (t : CommandTable) (name : Bytes) (value? : Option Bytes) (c : Call) : Prop :=
  ∃ r, t.routine? c.words = some r ∧ r.Assigns name value?

/-- Of calls, the latest first, one by a shell sets or unsets the variable of a name; those after
it give the name no other meaning, and neither do those before it that it may be nested in. -/
def Assigned (t : CommandTable) (name : Bytes) (value? : Option Bytes) (shell : Nat)
    (calls : List Call) : Prop :=
  ∃ after c before, calls = after ++ c :: before ∧ c.Assigns t name value? ∧ c.shell.id = shell ∧
    (∀ x ∈ after, x.Spares t name) ∧ ∀ x ∈ before, x.Settles t name

variable {t : CommandTable} {name : Bytes} {value? : Option Bytes} {shell : Nat}

lemma not_assigned_nil : ¬ Assigned t name value? shell [] := by
  rintro ⟨after, c, before, h, -⟩
  exact List.append_ne_nil_of_right_ne_nil after (List.cons_ne_nil c before) h.symm

lemma Assigned.assigns {c : Call} (h : Assigned t name value? shell [c]) :
    c.Assigns t name value? := by
  obtain ⟨after, x, before, heq, hassigns, -⟩ := h
  have hmem : x ∈ [c] := by simp [heq]
  rwa [← List.mem_singleton.1 hmem]

/-- Either the assignment is among the later calls, or those give the name no other meaning. -/
lemma Assigned.of_append {calls calls' : List Call}
    (h : Assigned t name value? shell (calls' ++ calls)) :
    (Assigned t name value? shell calls' ∧ ∀ x ∈ calls, x.Settles t name) ∨
      (∀ x ∈ calls', x.Spares t name) ∧ Assigned t name value? shell calls := by
  obtain ⟨after, c, before, heq, hassigns, hshell, hafter, hbefore⟩ := h
  rcases List.append_eq_append_iff.1 heq with ⟨as, rfl, rfl⟩ | ⟨bs, rfl, hbs⟩
  · refine .inr ⟨fun x hx => hafter x (List.mem_append_left _ hx), as, c, before, rfl, hassigns,
      hshell, fun x hx => hafter x (List.mem_append_right _ hx), hbefore⟩
  · cases bs with
    | nil =>
      rw [List.nil_append] at hbs
      rw [List.append_nil]
      exact .inr ⟨hafter, [], c, before, hbs.symm, hassigns, hshell, List.forall_mem_nil _, hbefore⟩
    | cons b bs =>
      obtain ⟨rfl, rfl⟩ := List.cons.inj hbs
      exact .inl ⟨⟨after, c, bs, rfl, hassigns, hshell, hafter,
        fun x hx => hbefore x (List.mem_append_left _ hx)⟩,
        fun x hx => hbefore x (List.mem_append_right _ hx)⟩

end Call

namespace Machine

/-! ### What names stand for -/

/-- What a name stands for in an invocation once `level` scopes inside it have ended. -/
def valueAt? (m : Machine) (level : Nat) (name : Bytes) : Option Bytes :=
  (Definitions.pop^[level] (m.shell.definitions.getD {})).lookup m.host.environment.find? name

/-- No scope has a definition of the name. -/
def Lacks (m : Machine) (name : Bytes) : Prop := (m.shell.definitions.getD {}).Lacks name

/-- The name stands for a value, or for none, in every invocation. -/
structure Settled (m : Machine) (name : Bytes) (value? : Option Bytes) : Prop where
  lacks : m.Lacks name
  environment : m.host.environment.find? name = value?

lemma Settled.valueAt? {m : Machine} {name : Bytes} {value? : Option Bytes}
    (h : m.Settled name value?) (level : Nat) : m.valueAt? level name = value? := by
  rw [Machine.valueAt?, (h.lacks.iterate_pop level).lookup, h.environment]

/-- What a name stands for does not change, unless a scope defines it. -/
structure Holds (m : Machine) (name : Bytes) (m' : Machine) : Prop where
  environment : m'.host.environment.find? name = m.host.environment.find? name
  lacks : m.Lacks name → m'.Lacks name

lemma Holds.trans {m m' m'' : Machine} {name : Bytes} (h : m.Holds name m')
    (h' : m'.Holds name m'') : m.Holds name m'' :=
  ⟨h'.environment.trans h.environment, fun hm => h'.lacks (h.lacks hm)⟩

lemma Holds.of_eq {m m' : Machine} {name : Bytes}
    (henvironment : m'.host.environment = m.host.environment)
    (hdefinitions : m'.shell.definitions = m.shell.definitions) : m.Holds name m' :=
  ⟨by rw [henvironment], fun h => by rwa [Lacks, hdefinitions]⟩

lemma Settled.holds {m m' : Machine} {name : Bytes} {value? : Option Bytes}
    (h : m.Settled name value?) (h' : m.Holds name m') : m'.Settled name value? :=
  ⟨h'.lacks h.lacks, h'.environment.trans h.environment⟩

/-! ### Setting a variable -/

/-- A variable is set or unset, and no scope defines its name any more. -/
def assign (m : Machine) (name : Bytes) (e : Environment) : Machine :=
  (m.setEnvironment e).clearDefinition name

section Assign

variable {m : Machine} {name : Bytes} {value? : Option Bytes} {e : Environment}
  (he : ∀ other, e.find? other = if other = name then value? else m.host.environment.find? other)

lemma getD_definitions_clearDefinition (m : Machine) (name : Bytes) :
    (m.clearDefinition name).shell.definitions.getD {} =
      (m.shell.definitions.getD {}).clear name := by
  show (m.shell.definitions.map fun d => d.clear name).getD {} = _
  cases m.shell.definitions <;> rfl

include he

lemma settled_assign : (m.assign name e).Settled name value? := by
  constructor
  · rw [Lacks, assign, getD_definitions_clearDefinition]
    exact Definitions.lacks_clear _ _
  · exact (he name).trans (if_pos rfl)

/-- In every invocation the name stands for the value now, and other names for what they stood
for. -/
lemma valueAt?_assign (level : Nat) (other : Bytes) :
    (m.assign name e).valueAt? level other =
      if other = name then value? else m.valueAt? level other := by
  split
  · subst other
    exact (settled_assign he).valueAt? level
  · rename_i hother
    rw [valueAt?, assign, getD_definitions_clearDefinition, Definitions.iterate_pop_clear,
      Definitions.lookup_clear_of_ne hother, valueAt?, Definitions.lookup, Definitions.lookup]
    exact congrArg _ ((he other).trans (if_neg hother))

end Assign

end Machine

namespace Interpreter

open Machine

lemma perform_ask {α : Type} (invoke : Invoke) (q : Query) (next : q.Answer → Routine α)
    (m : Machine) :
    perform invoke (.ask q next) m = perform invoke (next (m.answer q).1) (m.answer q).2 := rfl

lemma perform_assigns {r : Routine Verdict} {name : Bytes} {value? : Option Bytes}
    (h : r.Assigns name value?) (invoke : Invoke) (m : Machine) :
    ∃ e : Environment,
      (∀ other, e.find? other =
        if other = name then value? else m.host.environment.find? other) ∧
      perform invoke r m = some (.done, m.assign name e) := by
  cases h with
  | @set args value hname hvalue hvalid =>
    obtain ⟨e, he⟩ := (m.host.environment.set_eq_ok_iff name value).2 hvalid
    have hset : m.answer (.setEnvironment name value) = (.ok (), m.setEnvironment e) := by
      simp only [answer, setVariable, he]
      rfl
    refine ⟨e, m.host.environment.find?_set name he, ?_⟩
    simp only [Commands.setEnvironment, hname, hvalue]
    show perform invoke (.ask (.setEnvironment name value) _) m = _
    rw [perform_ask, hset]
    rfl
  | @unset args hname =>
    refine ⟨m.host.environment.unset name, m.host.environment.find?_unset name, ?_⟩
    simp only [Commands.unsetEnvironment, hname]
    rfl

/-- Setting a variable is done only if it may have the name. -/
lemma isName_of_perform_setEnvironment {args : Arguments} {name value : Bytes}
    (hname : args.string? 0 = some name) (hvalue : args.string? 1 = some value) {invoke : Invoke}
    {m m' : Machine}
    (hrun : perform invoke (Commands.setEnvironment args) m = some (.done, m')) :
    Environment.isName name = true := by
  by_contra hinvalid
  simp only [Commands.setEnvironment, hname, hvalue] at hrun
  change perform invoke (.ask (.setEnvironment name value) _) m = _ at hrun
  have hset : m.answer (.setEnvironment name value) = (.error ⟨name⟩, m) := by
    simp only [answer, setVariable, Environment.set, if_neg hinvalid]
    rfl
  rw [perform_ask, hset] at hrun
  cases hrun

end Interpreter

namespace Machine

/-! ### Runs -/

/-- On the way from `m` to `m'` some calls are made, the latest first, by the shell or by the
operator's. -/
structure Extends (calls : List Call) (m m' : Machine) : Prop where
  table : m'.host.table = m.host.table
  id : m'.shell.id = m.shell.id
  operator : m'.host.operator.id = m.host.operator.id
  attended : m.host.attended <+: m'.host.attended
  noted : m'.host.calls = calls ++ m.host.calls
  callers : ∀ c ∈ calls, c.shell.id = m.shell.id ∨ c.shell.id = m.host.operator.id

/-- The operator has a shell of its own, or nothing is attended to. -/
def Apart (m m' : Machine) : Prop :=
  m.shell.id ≠ m.host.operator.id ∨ m'.host.attended = m.host.attended

namespace Extends

variable {m m' m'' : Machine} {calls calls' : List Call}

lemma of_eq (htable : m'.host.table = m.host.table) (hid : m'.shell.id = m.shell.id)
    (hoperator : m'.host.operator = m.host.operator) (hattended : m'.host.attended = m.host.attended)
    (hcalls : m'.host.calls = m.host.calls) : Extends [] m m' :=
  ⟨htable, hid, by rw [hoperator], by rw [hattended], hcalls, List.forall_mem_nil _⟩

lemma trans (h : Extends calls m m') (h' : Extends calls' m' m'') :
    Extends (calls' ++ calls) m m'' where
  table := h'.table.trans h.table
  id := h'.id.trans h.id
  operator := h'.operator.trans h.operator
  attended := h.attended.trans h'.attended
  noted := by rw [h'.noted, h.noted, List.append_assoc]
  callers := by
    have hlater := h'.callers
    rw [h.id, h.operator] at hlater
    exact List.forall_mem_append.2 ⟨hlater, h.callers⟩

/-- What holds of the operator on the whole way holds of both its parts. -/
lemma apart (h : Extends calls m m') (h' : Extends calls' m' m'') (hapart : m.Apart m'') :
    m.Apart m' ∧ m'.Apart m'' := by
  rcases hapart with hid | hattended
  · exact ⟨.inl hid, .inl (by rwa [h.id, h.operator])⟩
  · have hlength := h'.attended.length_le
    rw [hattended] at hlength
    have hsame : m.host.attended = m'.host.attended := h.attended.eq_of_length_le hlength
    exact ⟨.inr hsame.symm, .inr (hattended.trans hsame)⟩

end Extends

lemma Idles.extends {m m' : Machine} (h : Idles m m') : Extends [] m m' :=
  ⟨h.table, h.id, by rw [h.operator], h.attended, h.calls, List.forall_mem_nil _⟩

/-- Of the calls on the way from `m` to `m'` it is known when they leave a name what it stands for,
and what it stands for if they give it a meaning.  The former may need the condition `own`, the
latter the condition `calm`. -/
def Carries (name : Bytes) (value? : Option Bytes) (own calm : Prop) (m m' : Machine) : Prop :=
  ∃ calls, Extends calls m m' ∧
    (own → (∀ c ∈ calls, c.Spares m.host.table name) → m.Holds name m') ∧
    (calm → Call.Assigned m.host.table name value? m.shell.id calls → m.Apart m' →
      m'.Settled name value?)

namespace Carries

variable {name : Bytes} {value? : Option Bytes} {own calm : Prop} {m m' m'' : Machine}

/-- Nothing is called. -/
lemma of_extends_nil (h : Extends [] m m') (hholds : own → m.Holds name m') :
    Carries name value? own calm m m' :=
  ⟨[], h, fun hown _ => hholds hown, fun _ hassigned _ => absurd hassigned Call.not_assigned_nil⟩

/-- The second part keeps what the first part assigns, if it is known to, or if the first part calls
nothing. -/
lemma trans {own' calm' own'' calm'' : Prop} (h : Carries name value? own calm m m')
    (h' : Carries name value? own' calm' m' m'') (hown : own'' → own ∧ own')
    (hcalm : calm'' → calm' ∧ (m'.host.calls = m.host.calls ∨ calm ∧ own')) :
    Carries name value? own'' calm'' m m'' := by
  obtain ⟨calls, hext, hholds, hsettles⟩ := h
  obtain ⟨calls', hext', hholds', hsettles'⟩ := h'
  rw [hext.table] at hholds' hsettles'
  rw [hext.id] at hsettles'
  refine ⟨calls' ++ calls, hext.trans hext', fun hown'' hspares => ?_,
    fun hcalm'' hassigned hapart => ?_⟩
  · obtain ⟨hlater, hearlier⟩ := List.forall_mem_append.1 hspares
    exact (hholds (hown hown'').1 hearlier).trans (hholds' (hown hown'').2 hlater)
  · obtain ⟨hcalm', hfirst⟩ := hcalm hcalm''
    obtain ⟨hapart, hapart'⟩ := hext.apart hext' hapart
    rcases hassigned.of_append with ⟨hassigned, -⟩ | ⟨hlater, hassigned⟩
    · exact hsettles' hcalm' hassigned hapart'
    · -- what the first part assigns, the second part has to keep
      rcases hfirst with hcalls | ⟨hcalm, hown'⟩
      · have hnil : calls = [] := List.append_left_eq_self.1 (hext.noted.symm.trans hcalls)
        rw [hnil] at hassigned
        exact absurd hassigned Call.not_assigned_nil
      · exact (hsettles hcalm hassigned hapart).holds (hholds' hown' hlater)

lemma mono {own' calm' : Prop} (h : Carries name value? own calm m m') (hown : own' → own)
    (hcalm : calm' → calm) : Carries name value? own' calm' m m' := by
  obtain ⟨calls, hext, hholds, hsettles⟩ := h
  exact ⟨calls, hext, fun h => hholds (hown h), fun h => hsettles (hcalm h)⟩

/-- Both parts are known to keep what is assigned before them. -/
lemma trans_true (h : Carries name value? True True m m')
    (h' : Carries name value? True True m' m'') : Carries name value? True True m m'' :=
  h.trans h' (fun _ => ⟨trivial, trivial⟩) fun _ => ⟨trivial, .inr ⟨trivial, trivial⟩⟩

end Carries

section

variable {name : Bytes} {value? : Option Bytes} {own calm : Prop} {m m' : Machine}

lemma Idles.holds (h : Idles m m') : m.Holds name m' := .of_eq h.environment h.definitions

lemma Idles.carries (h : Idles m m') : Carries name value? own calm m m' :=
  .of_extends_nil h.extends fun _ => h.holds

instance : Std.Refl (Carries name value? True True) := ⟨fun m => (Idles.refl m).carries⟩

instance : IsTrans Machine (Carries name value? True True) := ⟨fun _ _ _ => Carries.trans_true⟩

lemma Exchange.extends (h : Exchange m m') : Extends [] m m' := by
  obtain ⟨_, _, _, _, _, _, _, _, rfl, -⟩ := h
  exact .of_eq rfl rfl rfl rfl rfl

lemma Exchange.holds (h : Exchange m m') : m.Holds name m' := by
  obtain ⟨_, _, _, _, _, _, _, _, rfl, -⟩ := h
  exact .of_eq rfl rfl

lemma extends_answer (m : Machine) (q : Query) : Extends [] m (m.answer q).2 := by
  cases q with
  | setEnvironment other value =>
    simp only [answer, setVariable]
    split <;> exact .of_eq rfl rfl rfl rfl rfl
  | unsetEnvironment other => exact .of_eq rfl rfl rfl rfl rfl
  | clearDefinition other => exact .of_eq rfl rfl rfl rfl rfl
  | record e => exact (m.exchange_record e).extends
  | _ => exact Idles.extends (Idles.answers.answer (by trivial) m)

lemma holds_answer (m : Machine) {q : Query} (hq : q.Spares name) :
    m.Holds name (m.answer q).2 := by
  cases q with
  | setEnvironment other value =>
    simp only [answer, setVariable]
    split
    · exact .of_eq rfl rfl
    · rename_i e he
      exact ⟨(m.host.environment.find?_set other he name).trans (if_neg (Ne.symm hq)), id⟩
  | unsetEnvironment other =>
    exact ⟨(m.host.environment.find?_unset other name).trans (if_neg (Ne.symm hq)), id⟩
  | clearDefinition other =>
    refine ⟨rfl, fun h => ?_⟩
    rw [Lacks, answer, getD_definitions_clearDefinition]
    exact Definitions.Lacks.clear h other
  | record e => exact (m.exchange_record e).holds
  | _ => exact Idles.holds (Idles.answers.answer (by trivial) m)

end

end Machine

namespace Interpreter

open Machine

variable {name : Bytes} {value? : Option Bytes}

/-- Remembering a script sets one variable. -/
lemma extends_rememberScript (path : Bytes) (m : Machine) :
    Extends [] m (rememberScript path m) := by
  rw [rememberScript]
  split
  · split <;> exact .of_eq rfl rfl rfl rfl rfl
  · exact .of_eq rfl rfl rfl rfl rfl

lemma holds_rememberScript {path : Bytes}
    (h : ∀ p, Source.ofPath path = .script p → scriptVariable ≠ name) (m : Machine) :
    m.Holds name (rememberScript path m) := by
  rw [rememberScript]
  split
  · rename_i p hp
    split
    · rename_i e he
      exact ⟨(m.host.environment.find?_set _ he name).trans (if_neg (h p hp).symm), id⟩
    · exact .of_eq rfl rfl
  · exact .of_eq rfl rfl

/-- What is known of the invocations with definitions that a routine starts is known of the
routine. -/
lemma carries_perform {invoke : Invoke}
    (hinvoke : Conducts (fun definitions =>
      Carries name value? (DefinitionList.Spares name definitions) True) invoke) {α : Type}
    (r : Routine α) :
    ShellM.Maintains (Carries name value? (r.Spares name) (r.Settles name)) (perform invoke r) := by
  induction r with
  | done a =>
    intro m b m' hrun
    obtain ⟨-, rfl⟩ := ShellM.pure_eq_some hrun
    exact (Idles.refl m).carries
  | ask q next ih =>
    intro m b m' hrun
    have hanswer : Carries name value? (q.Spares name) True m (m.answer q).2 :=
      .of_extends_nil (extends_answer m q) (holds_answer m)
    exact hanswer.trans (ih _ _ b m' hrun) (fun hr => ⟨hr.1, hr.2 _⟩)
      fun hr => ⟨hr _, .inl (extends_answer m q).noted⟩
  | run line definitions next ih =>
    intro m b m' hrun
    obtain ⟨_, _, hget, hrun⟩ := ShellM.bind_eq_some hrun
    obtain ⟨rfl, rfl⟩ := ShellM.get_eq_some hget
    obtain ⟨o, n, hinner, hrun⟩ := ShellM.bind_eq_some hrun
    exact (hinvoke _ _ _ _ o n hinner).trans (ih o n b m' hrun)
      (fun hr => ⟨hr.1.definitions, hr.2 o⟩)
      fun hr => ⟨(hr o).settles, .inr ⟨trivial, hr o⟩⟩
  | load path definitions next ih =>
    intro m b m' hrun
    obtain ⟨_, _, hget, hrun⟩ := ShellM.bind_eq_some hrun
    obtain ⟨rfl, rfl⟩ := ShellM.get_eq_some hget
    obtain ⟨o, n, hload, hrun⟩ := ShellM.bind_eq_some hrun
    obtain ⟨_, _, hremember, hinner⟩ := ShellM.bind_eq_some hload
    obtain rfl := ShellM.modify_eq_some hremember
    have hremembered : Carries name value?
        (∀ p, Source.ofPath path = .script p → scriptVariable ≠ name) True m
        (rememberScript path m) :=
      .of_extends_nil (extends_rememberScript path m) fun h => holds_rememberScript h m
    have hstarted : Carries name value? (Source.Spares name (.ofPath path) definitions) True m n :=
      hremembered.trans (hinvoke _ _ _ _ o n hinner) (fun h => ⟨h.script, h.definitions⟩)
        fun _ => ⟨trivial, .inl (extends_rememberScript path m).noted⟩
    exact hstarted.trans (ih o n b m' hrun) (fun hr => ⟨hr.1, hr.2 o⟩)
      fun hr => ⟨(hr o).settles, .inr ⟨trivial, hr o⟩⟩

/-- The call of a command is noted. -/
lemma extends_called (words : List Bytes) (m : Machine) :
    Extends [⟨words, (called words m).shell⟩] m (called words m) := by
  have herrored := m.idles_setErrored false
  have hrecord := ((m.setErrored false).exchange_record (.runCommand words)).extends
  have hbefore := herrored.extends.trans hrecord
  exact
    { table := hbefore.table
      id := hbefore.id
      operator := hbefore.operator
      attended := hbefore.attended
      noted := congrArg (List.cons _) hbefore.noted
      callers := List.forall_mem_singleton.2 (.inl hbefore.id) }

lemma holds_called (words : List Bytes) (m : Machine) : m.Holds name (called words m) := by
  have herrored := m.idles_setErrored false
  have hrecord := (m.setErrored false).exchange_record (.runCommand words)
  exact herrored.holds.trans (hrecord.holds.trans (.of_eq rfl rfl))

/-- Entering an invocation whose definitions have none of a name leaves it what it stands for. -/
lemma carries_enter {definitions : Bytes} {defs : List Definition}
    (hparse : DefinitionList.parse definitions = .ok defs) (context : Option Context)
    (scope : Scope) (m : Machine) :
    Carries name value? (DefinitionList.Spares name definitions) True m
      (enter context scope defs m) := by
  obtain ⟨sessions, henter⟩ := enter_eq context scope defs m
  rw [henter]
  exact .of_extends_nil (.of_eq rfl rfl rfl rfl rfl) fun hspares =>
    ⟨rfl, fun h => (Definitions.Lacks.push h).install (hspares defs hparse)⟩

lemma carries_leave (context : Option Context) (m : Machine) :
    Carries name value? True True m (leave context m) := by
  obtain ⟨sessions, hleave⟩ := leave_eq context m
  rw [hleave]
  refine .of_extends_nil (.of_eq rfl rfl rfl rfl rfl) fun _ => ⟨rfl, fun h => ?_⟩
  unfold Lacks at h ⊢
  dsimp only
  cases hdefinitions : m.shell.definitions with
  | none => simpa using Definitions.lacks_empty name
  | some d =>
    rw [hdefinitions] at h
    split
    · exact Definitions.lacks_empty name
    · exact Definitions.Lacks.pop h

lemma conduct_carries (name : Bytes) (value? : Option Bytes) :
    Conduct Idles (Carries name value? True True) fun definitions =>
      Carries name value? (DefinitionList.Spares name definitions) True where
  steps := steps_idles
  lift h := h.carries
  call {_} hinvoke {m m' word words c args v} hfind hbind hperform := by
    have hcalled := extends_called (word :: words) m
    have hroutine : m.host.table.routine? (word :: words) = some (c.body args) := by
      simp only [CommandTable.routine?, List.headD_cons, hfind, Option.bind_some, hbind]
    obtain ⟨calls, hext, hholds, hsettles⟩ := carries_perform hinvoke _ _ v m' hperform
    rw [hcalled.table] at hholds hsettles
    rw [hcalled.id] at hsettles
    refine ⟨calls ++ [⟨word :: words, (called (word :: words) m).shell⟩], hcalled.trans hext,
      fun _ hspares => ?_, fun _ hassigned hapart => ?_⟩
    · obtain ⟨hlater, hcall⟩ := List.forall_mem_append.1 hspares
      have hr := hcall _ (List.mem_singleton_self _) _ hroutine
      exact (holds_called _ m).trans (hholds hr hlater)
    · rcases hassigned.of_append with ⟨hassigned, hcall⟩ | ⟨-, hassigned⟩
      · have hr := hcall _ (List.mem_singleton_self _) _ hroutine
        exact hsettles hr hassigned (hcalled.apart hext hapart).2
      · -- the command itself assigns, and calls nothing
        obtain ⟨r, hr, hassigns⟩ := hassigned.assigns
        obtain rfl := Option.some.inj (hroutine.symm.trans hr)
        obtain ⟨e, he, hassign⟩ := perform_assigns hassigns _ (called (word :: words) m)
        obtain ⟨-, rfl⟩ := Prod.mk.inj (Option.some.inj (hperform.symm.trans hassign))
        exact settled_assign he
  input h := h.mono (fun _ => DefinitionList.spares_nil name) id
  attend {m n} a h := by
    obtain ⟨calls, hext, hholds, -⟩ := h
    have hcallers : ∀ c ∈ calls, c.shell.id = m.host.operator.id := fun c hc =>
      (hext.callers c hc).elim id id
    have hattended := List.prefix_append n.host.attended [a]
    refine ⟨calls, ⟨hext.table, rfl, hext.id, hext.attended.trans hattended, hext.noted,
      fun c hc => .inr (hcallers c hc)⟩, fun _ hspares => ?_, fun _ hassigned hapart => ?_⟩
    · exact ⟨(hholds (DefinitionList.spares_nil name) hspares).environment, id⟩
    · -- the operator's shell has assigned, not this one
      obtain ⟨after, c, before, rfl, -, hid, -⟩ := hassigned
      rcases hapart with hother | hsame
      · exact absurd (hid.symm.trans (hcallers c (by simp))) hother
      · have hlength := hext.attended.length_le
        rw [← hsame] at hlength
        simp at hlength
  unread _ h := h.carries
  whole {m m₁ n m' definitions defs context outer scope} hopened hparse hloop hclosed := by
    have hread : Carries name value? True True m m₁ := hopened.carries
    have hentered : Carries name value? (DefinitionList.Spares name definitions) True m
        (enter context scope defs m₁) :=
      hread.trans (carries_enter hparse context scope m₁) (fun h => ⟨trivial, h⟩) fun _ =>
        ⟨trivial, .inl hopened.calls⟩
    have hleft := hloop.trans_true ((carries_leave outer n).trans_true hclosed.carries)
    exact hentered.trans hleft (fun h => ⟨h, trivial⟩) fun _ =>
      ⟨trivial, .inr ⟨trivial, trivial⟩⟩

/-! ### Lines of an invocation -/

/-- An invocation goes on from `m` to `m'`: it reads lines, handles lines, and applies its policy to
those that failed. -/
inductive Lines (invoke : Invoke) : Machine → Machine → Prop
  | refl (m : Machine) : Lines invoke m m
  | policy {m m₁ m' : Machine} {context : Option Context} {failure : Option Failure} {d : Decision}
      (h : applyPolicy invoke context failure m = some (d, m₁)) (rest : Lines invoke m₁ m') :
      Lines invoke m m'
  | read {m m' : Machine} (r : Reader) (rest : Lines invoke (readLine r m).2.2 m') :
      Lines invoke m m'
  | handle {m m₁ m' : Machine} {context : Option Context} {raw : Bytes} {location : Location}
      {script : Bool} {c : Continuation}
      (h : handle invoke context raw location script m = some (c, m₁))
      (rest : Lines invoke m₁ m') : Lines invoke m m'

/-- So goes the loop of every invocation. -/
lemma lines_of_loop {invoke : Invoke} {context : Option Context} {script : Bool} {fuel : Nat}
    {p : Progress Reader} {m m' : Machine} {ended : Option Failure × Reader}
    (hrun : loop readLine invoke context script fuel p m = some (ended, m')) :
    Lines invoke m m' := by
  induction fuel generalizing p m with
  | zero => cases hrun
  | succ fuel ih =>
    rw [loop, ShellM.get_bind] at hrun
    split at hrun
    · obtain ⟨-, rfl⟩ := ShellM.pure_eq_some hrun
      exact .refl m
    · obtain ⟨d, m₁, hpolicy, hrun⟩ := ShellM.bind_eq_some hrun
      refine .policy hpolicy ?_
      cases d with
      | finish f =>
        obtain ⟨-, rfl⟩ := ShellM.pure_eq_some hrun
        exact .refl m₁
      | readOn failure =>
        obtain ⟨⟨line, reader⟩, m₂, hread, hrun⟩ := ShellM.bind_eq_some hrun
        obtain ⟨heq, rfl⟩ := Prod.mk.inj (ShellM.modifyGet_eq_some hread)
        refine .read p.reader ?_
        cases line with
        | none =>
          obtain ⟨-, rfl⟩ := ShellM.pure_eq_some hrun
          exact .refl _
        | some raw =>
          obtain ⟨c, m₃, hhandle, hrun⟩ := ShellM.bind_eq_some hrun
          refine .handle hhandle ?_
          cases c with
          | leave =>
            obtain ⟨-, rfl⟩ := ShellM.pure_eq_some hrun
            exact .refl _
          | goOn => exact ih hrun

lemma carries_lines (name : Bytes) (value? : Option Bytes) {fuel : Nat} {m m' : Machine}
    (h : Lines (invoke fuel) m m') : Carries name value? True True m m' := by
  have hconduct := conduct_carries name value?
  have hrounds := hconduct.rounds (hconduct.invoke fuel)
  induction h with
  | refl m => exact (Idles.refl m).carries
  | policy h _ ih => exact (hrounds.applyPolicy _ _ _ _ _ h).trans_true ih
  | read r _ ih => exact (Idles.inputOutput.readLine r _).carries.trans_true ih
  | handle h _ ih => exact (hrounds.handle _ _ _ _ _ _ _ h).trans_true ih

end Interpreter

/-- The commands that come with the shell give no name another meaning after an invocation. -/
theorem Call.settles_standard (c : Call) (name : Bytes) :
    c.Settles CommandTable.standard name := by
  intro r hr
  obtain ⟨command, hfind, hbind⟩ := Option.bind_eq_some_iff.1 hr
  split at hbind
  · cases hbind
  · obtain rfl := Option.some.inj hbind
    exact (CommandTable.usual_standard _ command hfind _).settles

namespace Machine

open Interpreter

/-- **Scopes of definitions are properly nested.**  What is done between the beginning and the end of
a scope leaves as many scopes as before, and every name stands for what it stood for, but that
the names which were cleared meanwhile stand for what the fallback knows.

When the command that sets a variable is done, its name stands for the value in the invocation that
called it and in all those around it, and other names stand for what they stood for.  As an
invocation goes on over its lines, and invocations inside it come and go, the name that a call
among them has set, or unset, stands for that in every scope that is left, if no later call gives
the name another meaning, and no command that is still running does so after what it has
started. -/
theorem definitions_are_scoped :
    (∀ (d : Definitions) (fallback : Bytes → Option Bytes) {ops : List ScopeOp},
      ScopeOp.Balanced ops →
        (ScopeOp.run (.push :: ops ++ [.pop]) d).depth = d.depth ∧
        ∀ name, (ScopeOp.run (.push :: ops ++ [.pop]) d).lookup fallback name =
          if .clear name ∈ ops then fallback name else d.lookup fallback name) ∧
    (∀ {args : Arguments} {name value : Bytes}, args.string? 0 = some name →
      args.string? 1 = some value → ∀ {invoke : Invoke} {m m' : Machine},
        Interpreter.perform invoke (Commands.setEnvironment args) m = some (.done, m') →
          Environment.isName name = true ∧
          ∀ level other, m'.valueAt? level other =
            if other = name then some value else m.valueAt? level other) ∧
    ∀ {fuel : Nat} {m m' : Machine}, Lines (invoke fuel) m m' →
      ∃ calls, m'.host.calls = calls ++ m.host.calls ∧
        ∀ {name : Bytes} {value? : Option Bytes},
          Call.Assigned m.host.table name value? m.shell.id calls → m.Apart m' →
            ∀ level, m'.valueAt? level name = value? := by
  refine ⟨fun d fallback ops hops => ⟨ScopeOp.depth_enclosed hops d,
    ScopeOp.lookup_enclosed hops d fallback⟩, ?_, ?_⟩
  · intro args name value hname hvalue invoke m m' hrun
    have hvalid := isName_of_perform_setEnvironment hname hvalue hrun
    obtain ⟨e, he, hassign⟩ := perform_assigns (.set hname hvalue hvalid) invoke m
    obtain ⟨-, rfl⟩ := Prod.mk.inj (Option.some.inj (hrun.symm.trans hassign))
    exact ⟨hvalid, valueAt?_assign he⟩
  · intro fuel m m' hlines
    obtain ⟨calls, hext, -⟩ := carries_lines [] none hlines
    refine ⟨calls, hext.noted, fun {name value?} hassigned hapart level => ?_⟩
    obtain ⟨calls', hext', -, hsettles⟩ := carries_lines name value? hlines
    obtain rfl := List.append_cancel_right (hext.noted.symm.trans hext'.noted)
    exact (hsettles trivial hassigned hapart).valueAt? level

/-- A variable that is set in an invocation whose definitions have its name, inside another one whose
definitions have it. -/
theorem definitions_are_scoped_nested :
    let m : Machine :=
      { shell := { scopes := [{}], definitions := some ⟨[⟨"A", "0"⟩], [[]]⟩ }
        host := { table := CommandTable.standard } }
    let ops : List ScopeOp := [.put ⟨"A", "1"⟩, .push, .clear "A", .pop]
    (ScopeOp.run (.push :: ops ++ [.pop]) ⟨[⟨"A", "0"⟩], []⟩).lookup (fun _ => none) "A" = none ∧
      (∃ m', Interpreter.perform (invoke 0)
          (Commands.setEnvironment [.string "A" true, .string "1" true]) m = some (.done, m') ∧
        m'.valueAt? 1 "A" = some "1") ∧
      ∃ m', Lines (invoke 4) m m' ∧ ∀ level, m'.valueAt? level "A" = some "1" := by
  intro m ops
  obtain ⟨hnested, hset, hlines⟩ := definitions_are_scoped
  have hbalanced : ScopeOp.Balanced ops := by decide
  refine ⟨((hnested ⟨[⟨"A", "0"⟩], []⟩ (fun _ => none) hbalanced).2 "A").trans
    (if_pos (by decide)), ⟨_, rfl, ?_⟩, ?_⟩
  · exact ((@hset [.string "A" true, .string "1" true] "A" "1" rfl rfl (invoke 0) m _ rfl).2 1
      "A").trans (if_pos rfl)
  · have hruns : (loop readLine (invoke 4) none false 3
        ⟨.single (some "iocshRun 'epicsEnvSet A 1' A=2"), none, {}⟩ m).any (fun r =>
        r.2.host.calls.map (fun c => (c.words, c.shell.id)) ==
          ([(["epicsEnvSet", "A", "1"], 0), (["iocshRun", "epicsEnvSet A 1", "A=2"], 0)] :
            List (List Bytes × Nat))) = true := by
      decide +kernel
    obtain ⟨⟨ended, m'⟩, hrun, hwords⟩ := (Option.any_eq_true _ _).1 hruns
    have hdone : Lines (invoke 4) m m' := lines_of_loop hrun
    obtain ⟨calls, hcalls, hvalue⟩ := hlines hdone
    rw [List.append_nil] at hcalls
    rw [beq_iff_eq, hcalls] at hwords
    obtain ⟨set, calls, rfl, hset, hwords⟩ := List.map_eq_cons_iff.1 hwords
    obtain ⟨hwords', hid⟩ := Prod.mk.inj hset
    have hassigns : set.Assigns CommandTable.standard "A" (some "1") := by
      have hroutine : CommandTable.standard.routine? ["epicsEnvSet", "A", "1"] =
          some (Commands.setEnvironment [.string "A" true, .string "1" true]) := by rfl
      exact ⟨_, by rw [hwords', hroutine], .set rfl rfl rfl⟩
    exact ⟨m', hdone, hvalue ⟨[], set, calls, rfl, hassigns, hid, List.forall_mem_nil _,
      fun x _ => x.settles_standard "A"⟩ (.inl (by decide))⟩

end Machine

end ConsoleShell
