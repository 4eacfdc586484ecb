/-
What a whole loop preserves.

A loop goes round: it applies its policy to the line that failed last, reads a line, and
handles it.  Between lines the policy can hand over to an operator.  To know that a relation
holds between the machines before and after a loop, it is enough to know it of lines that are
dispatched, of scripts that a line runs, of each line of an operator, and of the single steps
in between.  This file goes through the loop once for all such relations.
-/
import ConsoleShell.Proofs.Shell.Frame
import ConsoleShell.Proofs.Shell.Redirection

namespace ConsoleShell

variable {σ : Type} [FileBase σ]

namespace Interpreter

/-- The relation holds across everything that the rounds of a loop are made of, apart from
reading. -/
structure Rounds (invoke : Invoke σ) (R : Machine σ → Machine σ → Prop) : Prop where
  writeLine : ∀ o text (m : Machine σ), R m (m.writeLine o text)
  fail : ∀ location message m, R m (fail location message m)
  halt : ∀ m : Machine σ, R m m.halt.2
  follow : ∀ plan (m : Machine σ), R m { m with host := { m.host with plan } }
  withdraw : ∀ channel (m : Machine σ), R m (m.withdraw channel)
  cancel : ∀ context (m : Machine σ), R m (m.cancel context)
  resume : ∀ m, R m (resumeByOperator m)
  /-- A line is dispatched, which redirects each descriptor once at most. -/
  dispatch : ∀ {line : Line} (location : Location), (line.redirections.map Redirection.fd).Nodup →
    ShellM.Maintains R (dispatch invoke line location)
  /-- A line runs the script that it redirects its input from. -/
  nested : ∀ (context : Option Context) (name : Bytes) {rs : Redirects} (location : Location),
    rs.Idle → ShellM.Maintains R (nested invoke context name rs location)
  /-- An operator's shell takes over for a line. -/
  attend : ∀ line, ShellM.Maintains R (attend invoke line)

namespace Rounds

variable {invoke : Invoke σ} {R : Machine σ → Machine σ → Prop} [Std.Refl R]
  [IsTrans (Machine σ) R] (h : Rounds invoke R)
include h

/-! ### Lines -/

lemma handleSplit (context : Option Context) {line : Line}
    (hfds : (line.redirections.map Redirection.fd).Nodup) (location : Location) :
    ShellM.Maintains R (handleSplit invoke context line location) := by
  have hidle := (Redirects.idle_ofList hfds).without 0
  rw [Interpreter.handleSplit]
  split
  · exact ShellM.maintains_bind (h.nested context _ location hidle) fun _ =>
      ShellM.maintains_pure _
  · split
    · exact ShellM.maintains_pure _
    · exact ShellM.maintains_bind (h.dispatch location hfds) fun _ => ShellM.maintains_pure _

lemma handleShown (context : Option Context) (line : Bytes) (location : Location) :
    ShellM.Maintains R (handleShown invoke context line location) := by
  rw [Interpreter.handleShown]
  split
  · exact ShellM.maintains_pure _
  · split
    · exact ShellM.maintains_pure _
    · exact ShellM.maintains_bind (ShellM.maintains_modify (h.fail location _)) fun _ =>
        ShellM.maintains_pure _
    · rename_i hsplit
      exact h.handleSplit context (Line.nodup_fds_of_split hsplit) location

lemma handleExpanded (context : Option Context) (line : Bytes) (location : Location)
    (script : Bool) :
    ShellM.Maintains R (handleExpanded invoke context line location script) := by
  have hshown := h.handleShown context line location
  rw [Interpreter.handleExpanded]
  split
  · exact ShellM.maintains_bind (ShellM.maintains_modify (h.writeLine .standard line)) fun _ =>
      hshown
  · exact hshown

/-- A line is handled. -/
lemma handle (context : Option Context) (raw : Bytes) (location : Location) (script : Bool) :
    ShellM.Maintains R (handle invoke context raw location script) := by
  rw [Interpreter.handle]
  simp only
  split
  · split
    · exact ShellM.maintains_bind (ShellM.maintains_modify (h.writeLine .standard raw)) fun _ =>
        ShellM.maintains_pure _
    · exact ShellM.maintains_pure _
  · refine ShellM.maintains_bind ShellM.maintains_get fun m => ?_
    split
    · exact ShellM.maintains_bind (ShellM.maintains_modify (h.fail location _)) fun _ =>
        ShellM.maintains_pure _
    · exact h.handleExpanded context _ location script

/-! ### Policies -/

lemma attendAll (lines : List Bytes) : ShellM.Maintains R (attendAll invoke lines) := by
  induction lines with
  | nil => exact ShellM.maintains_pure ()
  | cons line lines ih => exact ShellM.maintains_bind (h.attend line) fun _ => ih

/-- A shell is suspended until it is resumed or cancelled. -/
lemma suspend (context : Option Context) : ShellM.Maintains R (suspend invoke context) := by
  have hwithdraw (c : Nat) := ShellM.maintains_modify (h.withdraw c)
  have hcancel := ShellM.maintains_modify (h.cancel context)
  rw [Interpreter.suspend]
  refine ShellM.maintains_bind (ShellM.maintains_modifyGet h.halt) fun c =>
    ShellM.maintains_bind ShellM.maintains_get fun m => ?_
  dsimp only
  split
  · exact ShellM.maintains_bind hcancel fun _ => hwithdraw c
  · rename_i step plan _
    refine ShellM.maintains_bind (ShellM.maintains_modify (h.follow plan)) fun _ =>
      ShellM.maintains_bind (h.attendAll step.lines) fun _ => ?_
    split
    · exact ShellM.maintains_bind (ShellM.maintains_modify h.resume) fun _ => hwithdraw c
    · exact ShellM.maintains_bind hcancel fun _ => hwithdraw c
    · exact hwithdraw c

lemma applyPolicy (context : Option Context) (failure : Option Failure) :
    ShellM.Maintains R (applyPolicy invoke context failure) := by
  have hwrite (text : Bytes) := ShellM.maintains_modify (h.writeLine .error text)
  rw [Interpreter.applyPolicy]
  refine ShellM.maintains_bind ShellM.maintains_get fun m => ?_
  split
  · exact ShellM.maintains_pure _
  · split
    · exact ShellM.maintains_pure _
    · split
      · exact ShellM.maintains_pure _
      · exact ShellM.maintains_bind (hwrite _) fun _ => ShellM.maintains_pure _
      · split
        · refine ShellM.maintains_bind (hwrite _) fun _ =>
            ShellM.maintains_bind ShellM.maintains_get fun m => ?_
          split
          · exact ShellM.maintains_pure _
          · exact ShellM.maintains_pure _
        · exact ShellM.maintains_bind (hwrite _) fun _ =>
            ShellM.maintains_bind (h.suspend context) fun _ => ShellM.maintains_pure _

/-! ### Loops -/

/-- The relation holds across a loop if it holds across each reading. -/
lemma loop {ρ : Type} {read : ρ → Machine σ → Option Bytes × ρ × Machine σ}
    (hread : ∀ r m, R m (read r m).2.2) (context : Option Context) (script : Bool) (fuel : Nat)
    (p : Progress ρ) : ShellM.Maintains R (loop read invoke context script fuel p) := by
  induction fuel generalizing p with
  | zero =>
    intro m a m' hrun
    cases hrun
  | succ fuel ih =>
    rw [Interpreter.loop]
    refine ShellM.maintains_bind ShellM.maintains_get fun m => ?_
    split
    · exact ShellM.maintains_pure _
    · refine ShellM.maintains_bind (h.applyPolicy context p.failure) fun d => ?_
      cases d with
      | finish f => exact ShellM.maintains_pure _
      | readOn failure =>
        refine ShellM.maintains_bind (ShellM.maintains_modifyGet (hread p.reader)) fun answer => ?_
        obtain ⟨line, reader⟩ := answer
        cases line with
        | none => exact ShellM.maintains_pure _
        | some raw =>
          refine ShellM.maintains_bind (h.handle context raw _ script) fun c => ?_
          cases c with
          | leave => exact ShellM.maintains_pure _
          | goOn => exact ih _

end Rounds

end Interpreter

end ConsoleShell
