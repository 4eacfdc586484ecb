/-
What the commands that come with the shell ask for.

All but three of the commands start no invocation.  Whatever they are given and whatever they
are answered, they do not write to the target of a descriptor, and what they record are messages
for the error log and bad arguments of their own.  The other three start one invocation and then
mark their line at most.  A single command sets error policies.  Facts about the commands of a
table follow from this by a look at one routine.
-/
import ConsoleShell.Commands.Standard
import ConsoleShell.Proofs.Shell.Frame
import ConsoleShell.Proofs.Table.Catalogue
import Mathlib

namespace ConsoleShell

/-- The query does not reach past the standard streams, it sets no policy, and it records nothing
but a message for the error log or a bad argument. -/
def Query.IsOrdinary : Query → Prop
  | .writeDescriptor _ _ => False
  | .setPolicy _ => False
  | .record e => e.kind = .errorLog ∨ e.kind = .invalidInvocation
  | _ => True

namespace Routine

variable {α β : Type}

/-- The routine starts no invocation, and all its queries are ordinary, whatever is answered to
those before them. -/
def Still : Routine α → Prop
  | .done _ => True
  | .ask q next => q.IsOrdinary ∧ ∀ a, (next a).Still
  | .run _ _ _ => False
  | .load _ _ _ => False

lemma still_pure (a : α) : (pure a : Routine α).Still := trivial

lemma still_bind {r : Routine α} {f : α → Routine β} (hr : r.Still)
    (hf : ∀ a, (f a).Still) : (r >>= f).Still := by
  induction r with
  | done a => exact hf a
  | ask q next ih => exact ⟨hr.1, fun a => ih a (hr.2 a)⟩
  | run line definitions next ih => exact hr.elim
  | load path definitions next ih => exact hr.elim

lemma still_query {q : Query} (hq : q.IsOrdinary) : (query q).Still := ⟨hq, fun _ => trivial⟩

lemma still_print (text : Bytes) : (print text).Still := still_query trivial

lemma still_printLine (text : Bytes) : (printLine text).Still := still_print _

lemma still_complain (text : Bytes) : (complain text).Still := still_query trivial

lemma still_each {f : α → Routine Unit} (hf : ∀ x, (f x).Still) (xs : List α) :
    (each xs f).Still := by
  induction xs with
  | nil => trivial
  | cons x xs ih => exact still_bind (hf x) fun _ => ih

/-- Something is done before the end. -/
lemma still_then {r : Routine α} (hr : r.Still) (b : β) : (r >>= fun _ => pure b).Still :=
  still_bind hr fun _ => still_pure b

lemma still_ite {p : Prop} [Decidable p] {r s : Routine α} (hr : r.Still) (hs : s.Still) :
    (if p then r else s).Still := by
  split
  · exact hr
  · exact hs

/-- Whatever is answered, the routine asks queries of one kind only, and starts invocations only
on sources with definitions of some kind. -/
def Asks (Q : Query → Prop) (N : Source → Bytes → Prop) : Routine α → Prop
  | .done _ => True
  | .ask q next => Q q ∧ ∀ a, (next a).Asks Q N
  | .run line definitions next => N (.line line) definitions ∧ ∀ o, (next o).Asks Q N
  | .load path definitions next => N (.ofPath path) definitions ∧ ∀ o, (next o).Asks Q N

lemma Still.asks {Q : Query → Prop} {N : Source → Bytes → Prop} {r : Routine α} (h : r.Still)
    (hQ : ∀ q : Query, q.IsOrdinary → Q q) : r.Asks Q N := by
  induction r with
  | done a => trivial
  | ask q next ih => exact ⟨hQ q h.1, fun a => ih a (h.2 a)⟩
  | run line definitions next ih => exact h.elim
  | load path definitions next ih => exact h.elim

lemma asks_bind {Q : Query → Prop} {N : Source → Bytes → Prop} {r : Routine α}
    {f : α → Routine β} (hr : r.Asks Q N) (hf : ∀ a, (f a).Asks Q N) : (r >>= f).Asks Q N := by
  induction r with
  | done a => exact hf a
  | ask q next ih => exact ⟨hr.1, fun a => ih a (hr.2 a)⟩
  | run line definitions next ih => exact ⟨hr.1, fun o => ih o (hr.2 o)⟩
  | load path definitions next ih => exact ⟨hr.1, fun o => ih o (hr.2 o)⟩

lemma asks_ite {Q : Query → Prop} {N : Source → Bytes → Prop} {p : Prop} [Decidable p]
    {r s : Routine α} (hr : r.Asks Q N) (hs : s.Asks Q N) :
    (if p then r else s).Asks Q N := by
  split
  · exact hr
  · exact hs

/-- A relation holds across a routine if it holds across the answers to what the routine asks and
across the invocations that it starts. -/
lemma Asks.maintains {Q : Query → Prop} {N : Source → Bytes → Prop}
    {R : Machine → Machine → Prop} [Std.Refl R] [IsTrans Machine R] {invoke : Interpreter.Invoke}
    {r : Routine α} (hr : r.Asks Q N) (hanswer : ∀ q m, Q q → R m (m.answer q).2)
    (hrun : ∀ context line definitions, N (.line line) definitions →
      ShellM.Maintains R (invoke context (.line line) definitions))
    (hload : ∀ context path definitions, N (.ofPath path) definitions →
      ShellM.Maintains R (Interpreter.load invoke context path definitions)) :
    ShellM.Maintains R (Interpreter.perform invoke r) := by
  induction r with
  | done a => exact ShellM.maintains_pure a
  | ask q next ih =>
    exact ShellM.maintains_bind (ShellM.maintains_modifyGet fun m => hanswer q m hr.1)
      fun a => ih a (hr.2 a)
  | run line definitions next ih =>
    exact ShellM.maintains_bind ShellM.maintains_get fun m =>
      ShellM.maintains_bind (hrun _ _ _ hr.1) fun o => ih o (hr.2 o)
  | load path definitions next ih =>
    exact ShellM.maintains_bind ShellM.maintains_get fun m =>
      ShellM.maintains_bind (hload _ _ _ hr.1) fun o => ih o (hr.2 o)

/-- The routine starts no invocation, or just one, after which it marks the line at most, or it
is that of the command for error policies. -/
inductive Usual : Routine Verdict → Prop
  | still {r : Routine Verdict} (h : r.Still) : Usual r
  | on (args : Arguments) : Usual (Commands.on args)
  | run (line definitions : Bytes) (failed : Outcome → Bool) :
    Usual (.run line definitions fun o => Commands.markFailed (failed o))
  | load (path definitions : Bytes) (failed : Outcome → Bool) :
    Usual (.load path definitions fun o => Commands.markFailed (failed o))

lemma asks_markFailed {Q : Query → Prop} {N : Source → Bytes → Prop} (h : Q (.setErrored true))
    (failed : Bool) : (Commands.markFailed failed).Asks Q N := by
  cases failed with
  | false => trivial
  | true => exact ⟨h, fun _ => trivial⟩

section Policies

variable {Q : Query → Prop} {N : Source → Bytes → Prop} (hQ : ∀ q : Query, q.IsOrdinary → Q q)
  (hpolicy : ∀ p, Q (.setPolicy p))
include hQ hpolicy

lemma asks_setWait (value : Option Bytes) : (Commands.setWait value).Asks Q N := by
  have hset : (query (.setPolicy .suspend)).Asks Q N := ⟨hpolicy _, fun _ => trivial⟩
  refine asks_bind hset fun _ => ?_
  cases value with
  | none => exact (still_complain _).asks hQ
  | some text =>
    dsimp only
    split
    · exact (still_query (by trivial)).asks hQ
    · exact (still_bind (still_complain _) fun _ => still_query (by trivial)).asks hQ

lemma asks_setPolicy (word : Bytes) (value : Option Bytes) :
    (Commands.setPolicy word value).Asks Q N := by
  have hset : ∀ p, (query (.setPolicy p)).Asks Q N := fun p => ⟨hpolicy p, fun _ => trivial⟩
  refine asks_bind ((still_query (by trivial)).asks hQ) fun _ => ?_
  refine asks_ite (hset _) (asks_ite (hset _) (asks_ite ?_ (asks_ite ?_ ?_)))
  · exact asks_bind (hset _) fun _ => (still_query (by trivial)).asks hQ
  · exact asks_setWait hQ hpolicy value
  · exact (still_bind (still_complain _) fun _ => still_query (by trivial)).asks hQ

lemma asks_on (args : Arguments) : (Commands.on args).Asks Q N := by
  refine asks_bind ((still_query (by trivial)).asks hQ) fun scope => ?_
  have hcomplain : ∀ text, (complain text >>= fun _ => pure Verdict.done).Asks Q N :=
    fun text => (still_then (still_complain text) _).asks hQ
  split
  · trivial
  · split
    · exact asks_ite (hcomplain _) (asks_ite (hcomplain _)
        (asks_bind (asks_setPolicy hQ hpolicy _ _) fun _ => trivial))
    · exact hcomplain _

end Policies

/-- A usual routine asks ordinary queries only, unless it sets a policy. -/
lemma Usual.asks {r : Routine Verdict} (h : r.Usual) {Q : Query → Prop}
    (hQ : ∀ q : Query, q.IsOrdinary → Q q) (hpolicy : ∀ p, Q (.setPolicy p)) :
    r.Asks Q fun _ _ => True := by
  cases h with
  | still h => exact h.asks hQ
  | on args => exact asks_on hQ hpolicy args
  | run line definitions failed => exact ⟨trivial, fun o => asks_markFailed (hQ _ trivial) _⟩
  | load path definitions failed => exact ⟨trivial, fun o => asks_markFailed (hQ _ trivial) _⟩

end Routine

/-- For all arguments the routine of the command is a usual one. -/
def CommandBody.Usual (body : CommandBody) : Prop := ∀ args, (body args).Usual

/-- For all arguments the routine of the command is still. -/
def CommandBody.Still (body : CommandBody) : Prop := ∀ args, (body args).Still

lemma CommandBody.Still.usual {body : CommandBody} (h : CommandBody.Still body) :
    CommandBody.Usual body :=
  fun args => .still (h args)

namespace Commands

open Routine

/-! ### Control -/

lemma usual_runLine : CommandBody.Usual runLine := by
  intro args
  rw [runLine]
  split
  · exact .still trivial
  · exact .run _ _ _

lemma usual_runWithDefinitions : CommandBody.Usual runWithDefinitions := by
  intro args
  rw [runWithDefinitions]
  split
  · exact .still trivial
  · exact .run _ _ _

lemma usual_loadScript : CommandBody.Usual loadScript := fun _ => .load _ _ _

lemma still_help : CommandBody.Still help := by
  intro args
  refine still_bind (still_query (by trivial)) fun signatures => ?_
  split
  · exact still_bind (still_query (by trivial)) fun _ => still_then (still_each still_print _) _
  · exact still_bind (still_each still_print _) fun _ => still_then (still_print _) _

lemma usual_control : ∀ c ∈ control, CommandBody.Usual c.body := by
  simp only [control, List.forall_mem_cons]
  exact ⟨fun _ => .still trivial, fun _ => .still trivial, still_help.usual, usual_runLine,
    usual_loadScript, usual_runWithDefinitions, fun args => .on args,
    fun c hc => absurd hc List.not_mem_nil⟩

/-! ### Stock commands -/

lemma still_changeDirectory : CommandBody.Still changeDirectory := by
  intro args
  rw [changeDirectory]
  dsimp only
  split
  · exact still_then (still_complain _) _
  · refine still_bind (still_query (by trivial)) fun answer => ?_
    split
    · exact still_pure _
    · exact still_then (still_complain _) _

lemma still_date : CommandBody.Still date := by
  intro args
  refine still_bind (still_query (by trivial)) fun now => ?_
  split
  · exact still_pure _
  · exact still_then (still_printLine _) _

lemma still_sleep : CommandBody.Still sleep := by
  intro args
  rw [sleep]
  split
  · exact still_pure _
  · refine still_bind (still_query (by trivial)) fun finished => ?_
    split <;> exact still_pure _

lemma still_setEnvironment : CommandBody.Still setEnvironment := by
  intro args
  rw [setEnvironment]
  split
  · exact still_then (still_complain _) _
  · exact still_then (still_complain _) _
  · refine still_bind (still_query (by trivial)) fun answer => ?_
    split
    · exact still_pure _
    · exact still_then (still_query (by trivial)) _

lemma still_unsetEnvironment : CommandBody.Still unsetEnvironment := by
  intro args
  rw [unsetEnvironment]
  split
  · exact still_then (still_complain _) _
  · exact still_bind (still_query (by trivial)) fun _ => still_then (still_query (by trivial)) _

lemma still_showEnvironment : CommandBody.Still showEnvironment := by
  intro args
  refine still_bind (still_query (by trivial)) fun env => ?_
  split
  · exact still_then (still_each still_printLine _) _
  · split <;> exact still_then (still_printLine _) _

lemma still_showSettings : CommandBody.Still showSettings := by
  refine fun args => still_bind (still_query (by trivial)) fun env => ?_
  refine still_then (still_each (fun setting => ?_) settings) _
  obtain ⟨name, default⟩ := setting
  exact still_printLine _

lemma still_historyHelp : historyHelp.Still :=
  still_bind (still_print _) fun _ => still_bind (still_printLine _) fun _ =>
    still_bind (still_printLine _) fun _ => still_bind (still_printLine _) fun _ =>
      still_bind (still_printLine _) fun _ => still_each still_printLine _

lemma still_showHistory (h : History) (count : Option Bytes) : (showHistory h count).Still := by
  rw [showHistory.eq_def]
  dsimp only
  split
  · trivial
  · exact still_then (still_each (fun _ => still_printLine _) _) _

lemma still_history : CommandBody.Still history := by
  intro args
  rw [history]
  split
  · exact still_bind (still_query (by exact .inr rfl)) fun _ =>
      still_bind (still_query (by trivial)) fun _ =>
      still_bind still_historyHelp fun _ => still_then (still_query (by trivial)) _
  · split
    · exact still_then still_historyHelp _
    · refine still_bind (still_query (by trivial)) fun h => ?_
      split
      · exact still_pure _
      · split
        · exact still_then (still_query (by trivial)) _
        · exact still_showHistory _ _

lemma still_findSessions (all : List (Bytes × Bool)) (names : List Bytes) :
    (findSessions all names).Still := by
  induction names with
  | nil => trivial
  | cons name names ih =>
    rw [findSessions]
    split
    · exact still_bind ih fun _ => still_pure _
    · exact still_bind (still_complain _) fun _ => ih

lemma still_showSessions : CommandBody.Still showSessions := by
  intro args
  refine still_bind (still_query (by trivial)) fun all => ?_
  refine still_ite (still_bind (still_pure _) fun shown => ?_)
    (still_bind (still_findSessions _ _) fun shown => ?_)
  all_goals
    exact still_ite (still_pure _) (still_bind (still_printLine _) fun _ =>
      still_then (still_each (fun _ => still_printLine _) _) _)

lemma still_resumeSessions : CommandBody.Still resumeSessions := by
  refine fun args => still_then (still_each (fun name => ?_) _) _
  refine still_bind (still_query (by trivial)) fun answer => ?_
  split
  · exact still_complain _
  · exact still_pure _
  · exact still_complain _

lemma still_dumpRegistry : CommandBody.Still dumpRegistry := fun _ =>
  still_bind (still_query (by trivial)) fun _ => still_bind (still_query (by trivial)) fun _ =>
    still_bind (still_each (fun _ => still_printLine _) _) fun _ =>
      still_then (still_each (fun _ => still_printLine _) _) _

lemma still_stock : ∀ c ∈ stock, CommandBody.Still c.body := by
  simp only [stock, List.forall_mem_cons]
  exact ⟨still_changeDirectory, still_date, fun _ => still_then (still_printLine _) _,
    still_setEnvironment, still_showEnvironment, still_unsetEnvironment, still_showSettings,
    still_showSettings, still_resumeSessions, still_showSessions, still_sleep,
    fun _ => still_then (still_query (by exact .inl rfl)) _, still_history,
    fun _ => still_bind (still_query (by trivial)) fun _ => still_then (still_printLine _) _,
    still_dumpRegistry, fun c hc => absurd hc List.not_mem_nil⟩

/-! ### Variables -/

lemma still_printVariable (v : Variable) : (printVariable v).Still := by
  refine still_bind (still_query (by trivial)) fun value => ?_
  split
  · exact still_printLine _
  · exact still_printLine _
  · exact still_pure _

lemma still_assignVariable (v : Variable) (text : Bytes) : (assignVariable v text).Still := by
  rw [assignVariable]
  split
  · split
    · exact still_query (by trivial)
    · exact still_complain _
  · split
    · exact still_query (by trivial)
    · exact still_complain _
  · trivial

lemma still_var : CommandBody.Still var := by
  intro args
  rw [var]
  split
  · refine still_bind (still_query (by trivial)) fun all => ?_
    refine still_bind (still_each still_printVariable _) fun _ => ?_
    split
    · split
      · exact still_then (still_complain _) _
      · exact still_pure _
    · exact still_pure _
  · refine still_bind (still_query (by trivial)) fun found => ?_
    split
    · exact still_then (still_complain _) _
    · exact still_then (still_assignVariable _ _) _

end Commands

/-! ### Tables -/

namespace CommandTable

/-- The body of every command of the table has a property. -/
def All (P : CommandBody → Prop) (t : CommandTable) : Prop :=
  ∀ name c, t.findCommand? name = some c → P c.body

variable {P : CommandBody → Prop} {t : CommandTable}

/-- Taking a command with the property leaves a table with it. -/
lemma All.put {c : Command CommandBody} (h : All P t) (hc : P c.body) :
    All P (t.put c).table := by
  rw [Table.put]
  split
  · exact h
  · rename_i hfile
    intro name x hx
    rcases Catalogue.find?_file hfile hx with rfl | hx
    · exact hc
    · exact h name x hx

lemma All.registerAll {cs : List (Command CommandBody)} (h : All P t)
    (hcs : ∀ c ∈ cs, P c.body) : All P (registerAll t cs) := by
  induction cs generalizing t with
  | nil => exact h
  | cons c cs ih =>
    obtain ⟨hc, hcs⟩ := List.forall_mem_cons.1 hcs
    have htable : All P (t.register c.signature (some c.body)).table := by
      rw [Table.register]
      split
      · exact h
      · exact h.put hc
    rw [CommandTable.registerAll]
    split
    · exact ih htable hcs
    · exact htable

/-- Registering variables, the first of which registers a command, leaves a table with the
property. -/
lemma All.addVariable (h : All P t) (hvar : P Commands.var) (v : Variable) :
    All P (addVariable t v).table := by
  have hvariable : ∀ u : CommandTable, All P u → All P (u.putVariable v).table := by
    intro u hu
    rw [Table.putVariable]
    split
    · exact hu
    · rename_i hfile
      intro name c hc
      rw [Table.findCommand?, Catalogue.find?_of_file hfile (by decide)] at hc
      exact hu name c hc
  rw [CommandTable.addVariable, Table.registerVariable]
  split
  · exact h
  · split
    · have hput := h.put (c := ⟨Table.varSignature, Commands.var⟩) hvar
      dsimp only
      split
      · exact hput
      · exact hvariable _ hput
    · exact hvariable t h

lemma usual_control : All CommandBody.Usual control :=
  All.registerAll (fun _ _ hc => by cases hc) Commands.usual_control

/-- The commands that come with the shell are usual ones. -/
theorem usual_standard : All CommandBody.Usual standard :=
  usual_control.registerAll fun c hc => (Commands.still_stock c hc).usual

end CommandTable

end ConsoleShell
