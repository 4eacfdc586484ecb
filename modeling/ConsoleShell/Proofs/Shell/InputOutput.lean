/-
What input and output is made of.

An interpreter opens and reads sources, completes words, opens and closes targets, and writes
prompts and diagnostics.  All of this comes down to a few operations of its machine.  To know
that a relation holds across it, it is enough to know this of these operations.  This file goes
through input and output once for all such relations.
-/
import ConsoleShell.Shell.Interpreter
import Mathlib

namespace ConsoleShell

namespace FileRequest

/-- The operations that a shell asks for: it looks at a path, opens a path for reading, and
opens the target of a redirection. -/
inductive Usual : FileRequest → Prop
  | stat (p : Bytes) : Usual (.stat p)
  | open (p : Bytes) : Usual (.open p)
  | target (p : Bytes) (mode : Mode) : Usual (.openFile p mode.flags)

end FileRequest

/-! ### Lines -/

/-- Taking a line from a stream changes the state as reading does. -/
lemma LineBuffer.next_rel {σ : Type} {R : σ → σ → Prop} [Std.Refl R] [IsTrans σ R]
    {read : Nat → σ → Except StreamFault Bytes × σ} (hread : ∀ count s, R s (read count s).2)
    (fuel : Nat) (line : Bytes) (b : LineBuffer) (s : σ) :
    R s (LineBuffer.next read fuel line b s).2.2 := by
  induction fuel generalizing line b s with
  | zero => exact Std.Refl.refl s
  | succ fuel ih =>
    rw [LineBuffer.next]
    split
    · exact Std.Refl.refl s
    · split
      · simp only
        split <;> exact Std.Refl.refl s
      · split
        · exact ih _ _ _
        · have hcount := hread (capacity - b.pending.length) s
          split
          · rename_i h
            rw [h] at hcount
            exact IsTrans.trans _ _ _ hcount (ih _ _ _)
          · rename_i h
            rw [h] at hcount
            exact IsTrans.trans _ _ _ hcount (ih _ _ _)

section

variable {σ : Type} {R : σ → σ → Prop} [Std.Refl R] [IsTrans σ R]
  {complete : List Char → σ → List (List Char) × σ} (hcomplete : ∀ line s, R s (complete line s).2)
include hcomplete

/-- Editing a line changes the state as completion does. -/
lemma TerminalEditor.read_rel (keys line : List Char) (memory : Recall) (s : σ) :
    R s (TerminalEditor.read complete line memory keys s).2.2 := by
  induction keys generalizing line memory s with
  | nil =>
    rw [TerminalEditor.read]
    split <;> exact Std.Refl.refl s
  | cons k keys ih =>
    rw [TerminalEditor.read]
    split
    · exact Std.Refl.refl s
    split
    · exact Std.Refl.refl s
    split
    · split
      · exact Std.Refl.refl s
      · exact ih _ _ _
    split
    · split
      · exact ih _ _ _
      · exact ih _ _ _
    split
    · exact IsTrans.trans _ _ _ (hcomplete line s) (ih _ _ _)
    split
    · exact ih _ _ _
    · exact ih _ _ _

/-- The same for a line that is added to a history. -/
lemma TerminalEditor.readLine_rel (e : TerminalEditor) (history : Option History) (s : σ) :
    R s (e.readLine complete history s).2.2.2 := by
  have hread := TerminalEditor.read_rel hcomplete e.keys [] e.memory s
  unfold TerminalEditor.readLine TerminalEditor.next
  split
  · rename_i h
    rwa [h] at hread
  · rename_i h
    rwa [h] at hread
  · rename_i h
    rw [h] at hread
    simp only
    split <;> exact hread

end

variable {σ : Type}

/-- What holds across every step of a fold holds across the fold. -/
lemma Machine.foldl_rel {α : Type} {R : Machine σ → Machine σ → Prop} [Std.Refl R]
    [IsTrans (Machine σ) R] {f : Machine σ → α → Machine σ} (hf : ∀ m a, R m (f m a))
    (as : List α) (m : Machine σ) : R m (as.foldl f m) := by
  induction as generalizing m with
  | nil => exact refl_of R m
  | cons a as ih => exact trans_of R (hf m a) (ih (f m a))

variable [FileBase σ]

namespace Interpreter

/-- The machine after the prompt for a line has been written. -/
def prompted (prompts : Option Endpoint) (m : Machine σ) : Machine σ :=
  match prompts with
  | some e => if (prompt m).isEmpty then m else m.writeTo 1 e (prompt m)
  | none => m

lemma readLine_stream (source : Endpoint) (buffer : LineBuffer) (prompts : Option Endpoint)
    (m : Machine σ) :
    readLine (.stream source buffer prompts) m =
      match LineBuffer.next (Machine.read source)
        ((prompted prompts m).available source + buffer.pending.length + 4) [] buffer
        (prompted prompts m) with
      | (.ok line, buffer, m) => (some line, .stream source buffer prompts, m)
      | (.error .endOfInput, buffer, m) => (none, .stream source buffer prompts, m)
      | (.error f, buffer, m) =>
        (none, .stream source buffer prompts,
          m.writeLine .error (("Error reading input: " : Bytes) ++ f.message)) := rfl

end Interpreter

/-! ### Operations of a machine -/

namespace Machine

/-- The relation holds across the operations that input and output is made of. -/
structure InputOutput (R : Machine σ → Machine σ → Prop) : Prop where
  request : ∀ {r : FileRequest} (m : Machine σ), r.Usual → R m (m.request r).2
  openFile : ∀ {r : FileRequest} (m : Machine σ), r.Usual → R m (m.openFile r).2
  closeHandle : ∀ h (m : Machine σ), R m (m.closeHandle h).2
  listDirectory : ∀ path (m : Machine σ), R m (m.listDirectory path).2
  read : ∀ e count (m : Machine σ), R m (read e count m).2
  writeTo : ∀ fd e text (m : Machine σ), R m (m.writeTo fd e text)
  /-- The history is kept after a line has been edited. -/
  remember : ∀ history (m : Machine σ), R m { m with host := { m.host with history } }

namespace InputOutput

variable {R : Machine σ → Machine σ → Prop} (h : InputOutput R)
include h

lemma readAll (e : Endpoint) (m : Machine σ) : R m (m.readAll e).2 := by
  have hread := h.read e (m.available e + 1) m
  rw [Machine.readAll]
  split
  · rename_i heq
    rwa [heq] at hread
  · rename_i heq
    rwa [heq] at hread
  · rename_i heq
    rwa [heq] at hread

lemma writeLine (o : Output) (text : Bytes) (m : Machine σ) : R m (m.writeLine o text) :=
  h.writeTo _ _ _ m

/-- Looking for a directory is input; moving there has to be known besides. -/
lemma changeDirectory [IsTrans (Machine σ) R]
    (hmove : ∀ directory (m : Machine σ), R m { m with shell := { m.shell with directory } })
    (dir : Bytes) (m : Machine σ) : R m (m.changeDirectory dir).2 := by
  have hrequest := h.request m (.stat (m.resolve dir))
  rw [Machine.changeDirectory]
  simp only
  split
  · rename_i heq
    rwa [heq] at hrequest
  · rename_i n heq
    rw [heq] at hrequest
    split
    · exact trans_of R hrequest (hmove _ n)
    · exact hrequest
  · rename_i heq
    rwa [heq] at hrequest

/-! ### Words, prompts and single targets -/

lemma paths [IsTrans (Machine σ) R] (word : Bytes) (m : Machine σ) :
    R m (Completion.paths m word).2 := by
  have hrequest := h.request m (.open (m.resolve (Path.split word).1))
  rw [Completion.paths]
  simp only
  split
  · rename_i heq
    rwa [heq] at hrequest
  · rename_i heq
    rw [heq] at hrequest
    exact trans_of R hrequest (h.listDirectory _ _)

variable [Std.Refl R]

lemma typed [IsTrans (Machine σ) R] (line : List Char) (m : Machine σ) :
    R m (Completion.typed line m).2 := by
  show R m (Completion.complete m (Utf8.encode line)).2
  rw [Completion.complete]
  split
  · exact refl_of R m
  · lift_lets
    extract_lets typing word index
    split
    · exact refl_of R m
    · split
      · exact refl_of R m
      · split
        · exact refl_of R m
        · split
          · exact h.paths _ m
          · exact refl_of R m

lemma prompted (prompts : Option Endpoint) (m : Machine σ) :
    R m (Interpreter.prompted prompts m) := by
  cases prompts with
  | none => exact refl_of R m
  | some e =>
    simp only [Interpreter.prompted]
    split
    · exact refl_of R m
    · exact h.writeTo _ _ _ m

lemma closeReader (r : Reader) (m : Machine σ) : R m (Interpreter.closeReader r m) := by
  unfold Interpreter.closeReader
  split
  · exact h.closeHandle _ m
  · exact refl_of R m

lemma openTarget (resolve : Bytes → Bytes) (a : Attachment) (m : Machine σ) :
    R m (Redirects.openTarget resolve a m).2 := by
  have hopen : R m (Files.openPath (resolve a.redirection.name) a.redirection.mode.flags m).2 :=
    h.openFile m (.target (resolve a.redirection.name) a.redirection.mode)
  rw [Redirects.openTarget]
  split_ifs
  · exact refl_of R m
  · exact refl_of R m
  · split
    · rename_i heq
      rwa [heq] at hopen
    · rename_i heq
      rwa [heq] at hopen

/-! ### Targets of a line -/

variable [IsTrans (Machine σ) R]

lemma close (rs : Redirects) (m : Machine σ) : R m (rs.close m).2.2 := by
  induction rs generalizing m with
  | nil => exact refl_of R m
  | cons a rs ih =>
    rw [Redirects.close]
    split
    · exact ih m
    · exact trans_of R (h.closeHandle _ m) (ih _)

lemma openTargets (resolve : Bytes → Bytes) (rs : Redirects) (m : Machine σ) :
    R m (rs.openTargets resolve m).2.2 := by
  induction rs generalizing m with
  | nil => exact refl_of R m
  | cons a rs ih =>
    have hopen := h.openTarget resolve a m
    rw [Redirects.openTargets]
    split
    · rename_i heq
      rwa [heq] at hopen
    · rename_i heq
      rw [heq] at hopen
      exact trans_of R hopen (ih _)

lemma openAll (resolve : Bytes → Bytes) (rs : Redirects) (m : Machine σ) :
    R m (rs.openAll resolve m).2.2 := by
  have hopen := h.openTargets resolve rs m
  rw [Redirects.openAll]
  split
  · rename_i heq
    rwa [heq] at hopen
  · rename_i heq
    rw [heq] at hopen
    exact trans_of R hopen (h.close _ _)

/-! ### Diagnostics -/

lemma report (location : Location) (message : Bytes) (m : Machine σ) :
    R m (Interpreter.report location message m) := by
  rw [Interpreter.report]
  split
  · exact h.writeLine _ _ m
  · exact trans_of R (foldl_rel (fun m t => h.writeTo _ _ t m) _ m) (h.writeLine _ _ _)

/-- Targets are closed and diagnostics are written; that streams are led back has to be known
besides. -/
lemma detach
    (hstreams : ∀ streams (m : Machine σ), R m { m with shell := { m.shell with streams } })
    (rs : Redirects) (location : Location) (m : Machine σ) :
    R m (Interpreter.detach rs location m) := by
  have hclosed : R m (rs.detach m).2.2 := trans_of R (hstreams _ m) (h.close _ _)
  rw [Interpreter.detach]
  split
  · rename_i heq
    rwa [heq] at hclosed
  · rename_i heq
    rw [heq] at hclosed
    exact trans_of R hclosed (h.report _ _ _)

/-! ### Sources -/

lemma openSource (source : Source) (m : Machine σ) : R m (Interpreter.openSource source m).2 := by
  cases source with
  | line text => exact refl_of R m
  | console =>
    simp only [Interpreter.openSource]
    split
    · exact refl_of R m
    · exact h.readAll _ m
    · exact h.writeLine _ _ m
  | script path =>
    have hopen := h.openFile m (.open (m.resolve path))
    simp only [Interpreter.openSource]
    split
    · rename_i heq
      rwa [heq] at hopen
    · rename_i heq
      rw [heq] at hopen
      exact trans_of R hopen (h.writeLine _ _ _)

lemma readLine (r : Reader) (m : Machine σ) : R m (Interpreter.readLine r m).2.2 := by
  cases r with
  | single line => exact refl_of R m
  | stream source buffer prompts =>
    have hline := trans_of R (h.prompted prompts m)
      (LineBuffer.next_rel (h.read source)
        ((Interpreter.prompted prompts m).available source + buffer.pending.length + 4) [] buffer
        _)
    rw [Interpreter.readLine_stream]
    split
    · rename_i heq
      rwa [heq] at hline
    · rename_i heq
      rwa [heq] at hline
    · rename_i heq
      rw [heq] at hline
      exact trans_of R hline (h.writeLine _ _ _)
  | terminal editor =>
    have hedit := editor.readLine_rel h.typed m.host.history m
    simp only [Interpreter.readLine]
    exact trans_of R hedit (h.remember _ _)

end InputOutput

/-- What holds across input and output holds across everything it implies. -/
lemma InputOutput.mono {R S : Machine σ → Machine σ → Prop} (h : InputOutput R)
    (hRS : ∀ {m m'}, R m m' → S m m') : InputOutput S where
  request m hr := hRS (h.request m hr)
  openFile m hr := hRS (h.openFile m hr)
  closeHandle handle m := hRS (h.closeHandle handle m)
  listDirectory path m := hRS (h.listDirectory path m)
  read e count m := hRS (h.read e count m)
  writeTo fd e text m := hRS (h.writeTo fd e text m)
  remember history m := hRS (h.remember history m)

/-! ### Answers to commands -/

/-- The relation holds across what answers to queries are made of.  What depends on the query has
to be known of the queries with the property. -/
structure Answers (P : Query → Prop) (R : Machine σ → Machine σ → Prop) : Prop
    extends InputOutput R where
  move : ∀ directory (m : Machine σ), R m { m with shell := { m.shell with directory } }
  books : ∀ cells gates notes (m : Machine σ),
    R m { m with host := { m.host with cells, gates, notes } }
  modifyScope : ∀ {f : Scope → Scope}, (∀ s, (f s).interactive = s.interactive) →
    (∃ p, P (.setPolicy p)) ∨ (∀ s, (f s).policy = s.policy) →
      ∀ m : Machine σ, R m (m.modifyScope f)
  record : ∀ {e} (m : Machine σ), P (.record e) → R m (m.record e)
  setEnvironment : ∀ name,
    (∃ value, P (.setEnvironment name value)) ∨ P (.unsetEnvironment name) →
      ∀ environment (m : Machine σ), R m (m.setEnvironment environment)
  clearDefinition : ∀ {name} (m : Machine σ), P (.clearDefinition name) →
    R m (m.clearDefinition name)

/-- What holds across answers holds across everything it implies. -/
lemma Answers.mono {P : Query → Prop} {R S : Machine σ → Machine σ → Prop} (h : Answers P R)
    (hRS : ∀ {m m'}, R m m' → S m m') : Answers P S where
  toInputOutput := h.toInputOutput.mono hRS
  move directory m := hRS (h.move directory m)
  books cells gates notes m := hRS (h.books cells gates notes m)
  modifyScope hf hP m := hRS (h.modifyScope hf hP m)
  record m hP := hRS (h.record m hP)
  setEnvironment name hP environment m := hRS (h.setEnvironment name hP environment m)
  clearDefinition m hP := hRS (h.clearDefinition m hP)

namespace Answers

variable {P : Query → Prop} {R : Machine σ → Machine σ → Prop} [Std.Refl R] (h : Answers P R)
include h

lemma release (id : Nat) (m : Machine σ) : R m (m.release id).2 := by
  rw [Machine.release]
  split
  · exact refl_of R m
  · exact h.books _ _ _ m

/-- Whatever a command asks of its shell, the relation holds across the answer. -/
lemma answer [IsTrans (Machine σ) R] {q : Query} (hq : P q) (m : Machine σ) :
    R m (m.answer q).2 := by
  cases q with
  | write o text => exact h.writeTo _ _ text m
  | readAll => exact h.readAll _ m
  | writeDescriptor fd text =>
    simp only [Machine.answer]
    split
    · exact refl_of R m
    · exact h.writeTo 0 (.file _) text m
  | changeDirectory dir => exact h.changeDirectory h.move dir m
  | setEnvironment name value =>
    simp only [Machine.answer, Machine.setVariable]
    split
    · exact refl_of R m
    · exact h.setEnvironment name (.inl ⟨value, hq⟩) _ m
  | unsetEnvironment name => exact h.setEnvironment name (.inr hq) _ m
  | clearDefinition name => exact h.clearDefinition m hq
  | record e => exact h.record m hq
  | setCell s v => exact h.books _ _ _ m
  | clearHistory => exact h.remember _ m
  | resume name =>
    simp only [Machine.answer, Machine.resume]
    split
    · exact refl_of R m
    · exact h.release _ m
  | setPolicy policy =>
    exact h.modifyScope (f := fun s => { s with policy }) (fun _ => rfl) (.inl ⟨policy, hq⟩) m
  | setTimeout timeout =>
    exact h.modifyScope (f := fun s => { s with timeout }) (fun _ => rfl) (.inr fun _ => rfl) m
  | setErrored errored =>
    exact h.modifyScope (f := fun s => { s with errored }) (fun _ => rfl) (.inr fun _ => rfl) m
  | notify name args => exact h.books _ _ _ m
  | _ => exact refl_of R m

end Answers

end Machine

end ConsoleShell
