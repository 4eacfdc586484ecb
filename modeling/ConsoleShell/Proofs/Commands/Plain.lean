/-
Commands that use the standard streams only.

A command can ask its shell for the target of a descriptor and write to it directly.  None of
the commands that come with the shell does so: whatever they are given and whatever they are
answered, they read the input and write the two output streams.
-/
import ConsoleShell.Proofs.Commands.Usual

namespace ConsoleShell

/-- The query does not reach past the standard streams. -/
def Query.IsPlain : Query → Prop
  | .writeDescriptor _ _ => False
  | _ => True

lemma Query.IsOrdinary.isPlain {q : Query} (h : q.IsOrdinary) : q.IsPlain := by
  cases q with
  | writeDescriptor fd text => exact h
  | _ => trivial

namespace Routine

variable {α : Type}

/-- All queries of the routine are plain, whatever is answered to those before them. -/
def Plain : Routine α → Prop
  | .done _ => True
  | .ask q next => q.IsPlain ∧ ∀ a, (next a).Plain
  | .run _ _ next => ∀ o, (next o).Plain
  | .load _ _ next => ∀ o, (next o).Plain

lemma Asks.plain {N : Source → Bytes → Prop} {r : Routine α} (h : r.Asks Query.IsPlain N) :
    r.Plain := by
  induction r with
  | done a => trivial
  | ask q next ih => exact ⟨h.1, fun a => ih a (h.2 a)⟩
  | run line definitions next ih => exact fun o => ih o (h.2 o)
  | load path definitions next ih => exact fun o => ih o (h.2 o)

lemma Usual.plain {r : Routine Verdict} (h : r.Usual) : r.Plain :=
  (h.asks (fun _ => Query.IsOrdinary.isPlain) fun _ => trivial).plain

end Routine

/-- For all arguments the routine of the command is plain. -/
def CommandBody.Plain (body : CommandBody) : Prop := ∀ args, (body args).Plain

lemma CommandBody.Usual.plain {body : CommandBody} (h : CommandBody.Usual body) :
    CommandBody.Plain body :=
  fun args => (h args).plain

namespace CommandTable

/-- All commands of the table are plain. -/
def Plain (t : CommandTable) : Prop :=
  ∀ name c, t.findCommand? name = some c → CommandBody.Plain c.body

variable {t : CommandTable}

lemma Plain.of_find {c : Command CommandBody} {name : Bytes} (h : Plain t)
    (hc : t.findCommand? name = some c) : CommandBody.Plain c.body :=
  h name c hc

/-- Registering variables, the first of which registers a command, leaves a plain table. -/
theorem Plain.addVariable (h : Plain t) (v : Variable) : Plain (addVariable t v).table :=
  All.addVariable h Commands.still_var.usual.plain v

/-- The commands that come with the shell are plain. -/
theorem plain_standard : Plain standard := fun name c hc => (usual_standard name c hc).plain

end CommandTable

end ConsoleShell
