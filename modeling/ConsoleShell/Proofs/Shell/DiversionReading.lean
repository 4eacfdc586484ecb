/-
Lines that a diverted machine reads.

A diverted machine takes the same lines from its sources as the other one: from a single line,
from a stream, and from a terminal, where the words that are completed are the same, too, as
long as no directory is listed in which the file itself would show up.
-/
import ConsoleShell.Proofs.Shell.DiversionSteps

namespace ConsoleShell

/-! ### Streams that answer alike -/

/-- From streams that answer alike the same line is taken. -/
lemma LineBuffer.next_alike {σ τ : Type} {R : σ → τ → Prop}
    {read : Nat → σ → Except StreamFault Bytes × σ}
    {read' : Nat → τ → Except StreamFault Bytes × τ}
    (hread : ∀ count {s t}, R s t →
      (read count s).1 = (read' count t).1 ∧ R (read count s).2 (read' count t).2)
    (fuel : Nat) (line : Bytes) (b : LineBuffer) {s : σ} {t : τ} (h : R s t) :
    (LineBuffer.next read fuel line b s).1 = (LineBuffer.next read' fuel line b t).1 ∧
      (LineBuffer.next read fuel line b s).2.1 = (LineBuffer.next read' fuel line b t).2.1 ∧
      R (LineBuffer.next read fuel line b s).2.2 (LineBuffer.next read' fuel line b t).2.2 := by
  induction fuel generalizing line b s t with
  | zero => exact ⟨rfl, rfl, h⟩
  | succ fuel ih =>
    rw [LineBuffer.next, LineBuffer.next]
    split
    · exact ⟨rfl, rfl, h⟩
    · split
      · dsimp only
        split <;> exact ⟨rfl, rfl, h⟩
      · split
        · exact ih _ _ h
        · obtain ⟨hanswer, hrest⟩ := hread (capacity - b.pending.length) h
          rcases hs : read (capacity - b.pending.length) s with ⟨answer, s'⟩
          rcases ht : read' (capacity - b.pending.length) t with ⟨answer', t'⟩
          rw [hs, ht] at hanswer hrest
          obtain rfl : answer = answer' := hanswer
          cases answer with
          | ok data => exact ih _ _ hrest
          | error f => exact ih _ _ hrest

namespace Diversion

open Machine Interpreter

variable {d : Diversion} {part : Part} {m₁ m₂ : Machine}

/-! ### Completion -/

lemma Twin.overlaid (h : d.Twin part m₁ m₂) :
    ∃ n, m₂.host.store.Overlaid d.file n m₁.host.store := by
  obtain ⟨ρ, rfl, hρ⟩ := h
  obtain ⟨n, -, hstore⟩ := hρ.file
  exact ⟨n, hstore⟩

lemma Twin.key (h : d.Twin part m₁ m₂) : m₂.host.store.key = d.files.key := by
  obtain ⟨ρ, -, hρ⟩ := h
  exact hρ.key

lemma Twin.console (h : d.Twin part m₁ m₂) {n : Int} (hn : m₂.shell.console = .terminal n) :
    d.typed := by
  obtain ⟨ρ, -, hρ⟩ := h
  exact hρ.shell.typed n hn

lemma Quiet.asked {m : Machine} {r : FileRequest} (h : d.Quiet (m.request r).2) :
    d.Quiet (m.asked r) := by
  rw [request_eq] at h
  exact h.of_evolves (m.evolves_trail r)

lemma snd_paths (m : Machine) (word : Bytes) : (Completion.paths m word).2 =
    (m.request (.open (m.resolve (Path.split word).1))).2 := by
  rw [Completion.paths]
  dsimp only
  split
  · rename_i heq
    rw [heq]
  · rename_i heq
    rw [heq]
    rfl

/-- The same files are offered. -/
lemma Twin.paths (h : d.Twin part m₁ m₂) (htyped : d.typed) {word : Bytes}
    (hquiet : d.Quiet (Completion.paths m₂ word).2) :
    (Completion.paths m₁ word).1 = (Completion.paths m₂ word).1 ∧
      d.Twin part (Completion.paths m₁ word).2 (Completion.paths m₂ word).2 := by
  have hpath : ∀ dir, m₁.resolve dir = m₂.resolve dir := by
    obtain ⟨ρ, rfl, -⟩ := h
    exact fun _ => rfl
  rw [snd_paths] at hquiet
  obtain ⟨hignored, hunlisted⟩ := h.ignores hquiet.asked
  obtain ⟨hanswer, htwin, -⟩ := h.request (.open _) hquiet
  rw [snd_paths, snd_paths, hpath]
  refine ⟨?_, htwin⟩
  simp only [Completion.paths, hpath]
  rcases h₁ : m₁.request (.open (m₂.resolve (Path.split word).1)) with ⟨answer, n₁⟩
  rcases h₂ : m₂.request (.open (m₂.resolve (Path.split word).1)) with ⟨answer', n₂⟩
  rw [h₁, h₂] at hanswer htwin
  obtain rfl : answer = answer' := hanswer
  cases answer with
  | error f => rfl
  | ok a =>
    have hmiss : d.files.Misses d.file (m₂.resolve (Path.split word).1) :=
      hignored ⟨.open, _⟩ (List.mem_singleton_self _)
    obtain ⟨n, hstore⟩ := htwin.overlaid
    have hfind : n₁.host.store.find? (m₂.resolve (Path.split word).1) =
        n₂.host.store.find? (m₂.resolve (Path.split word).1) :=
      hstore.find? (by rw [htwin.key]; exact Ne.symm hmiss.1)
    have hchildren : n₁.host.store.children (m₂.resolve (Path.split word).1) =
        n₂.host.store.children (m₂.resolve (Path.split word).1) :=
      hstore.children (by rw [htwin.key]; exact hunlisted htyped _ rfl)
    have hlisted : (n₁.listDirectory (m₂.resolve (Path.split word).1)).1 =
        (n₂.listDirectory (m₂.resolve (Path.split word).1)).1 := by
      simp only [Machine.listDirectory, FileBase.list_store, hfind, hchildren]
    dsimp only
    rw [hlisted]

/-- The same continuations are offered. -/
lemma Twin.typed (h : d.Twin part m₁ m₂) (htyped : d.typed) {line : List Char}
    (hquiet : d.Quiet (Completion.typed line m₂).2) :
    (Completion.typed line m₁).1 = (Completion.typed line m₂).1 ∧
      d.Twin part (Completion.typed line m₁).2 (Completion.typed line m₂).2 := by
  have htable : m₁.host.table = m₂.host.table := by
    obtain ⟨ρ, rfl, -⟩ := h
    rfl
  have hcomplete : (Completion.complete m₁ (Utf8.encode line)).1 =
      (Completion.complete m₂ (Utf8.encode line)).1 ∧
      d.Twin part (Completion.complete m₁ (Utf8.encode line)).2
        (Completion.complete m₂ (Utf8.encode line)).2 := by
    have hquiet' : d.Quiet (Completion.complete m₂ (Utf8.encode line)).2 := hquiet
    revert hquiet'
    rw [Completion.complete, Completion.complete, htable]
    split
    · exact fun _ => ⟨rfl, h⟩
    · lift_lets
      intro typing word index
      split
      · exact fun _ => ⟨rfl, h⟩
      · split
        · exact fun _ => ⟨rfl, h⟩
        · split
          · exact fun _ => ⟨rfl, h⟩
          · split
            · intro hpaths
              obtain ⟨hcandidates, htwin⟩ := h.paths htyped hpaths
              exact ⟨congrArg (Completion.mk word) hcandidates, htwin⟩
            · exact fun _ => ⟨rfl, h⟩
  refine ⟨?_, hcomplete.2⟩
  show ((Completion.complete m₁ (Utf8.encode line)).1).continuations.map Utf8.chars = _
  rw [hcomplete.1]
  rfl

/-- The same keys edit the same line. -/
lemma Twin.edit (h : d.Twin part m₁ m₂) (htyped : d.typed) {keys line : List Char}
    {memory : Recall}
    (hquiet : d.Quiet (TerminalEditor.read Completion.typed line memory keys m₂).2.2) :
    (TerminalEditor.read Completion.typed line memory keys m₁).1 =
        (TerminalEditor.read Completion.typed line memory keys m₂).1 ∧
      (TerminalEditor.read Completion.typed line memory keys m₁).2.1 =
        (TerminalEditor.read Completion.typed line memory keys m₂).2.1 ∧
      d.Twin part (TerminalEditor.read Completion.typed line memory keys m₁).2.2
        (TerminalEditor.read Completion.typed line memory keys m₂).2.2 := by
  induction keys generalizing line memory m₁ m₂ with
  | nil =>
    rw [TerminalEditor.read, TerminalEditor.read]
    split <;> exact ⟨rfl, rfl, h⟩
  | cons k keys ih =>
    revert hquiet
    rw [TerminalEditor.read, TerminalEditor.read]
    split
    · exact fun _ => ⟨rfl, rfl, h⟩
    split
    · exact fun _ => ⟨rfl, rfl, h⟩
    split
    · split
      · exact fun _ => ⟨rfl, rfl, h⟩
      · exact fun hquiet => ih h hquiet
    split
    · split
      · exact fun hquiet => ih h hquiet
      · exact fun hquiet => ih h hquiet
    split
    · intro hquiet
      have hcomplete : d.Quiet (Completion.typed line m₂).2 :=
        hquiet.of_evolves (TerminalEditor.read_rel Evolves.inputOutput.typed _ _ _ _)
      obtain ⟨hcandidates, htwin⟩ := h.typed htyped hcomplete
      dsimp only at hquiet ⊢
      rw [hcandidates]
      exact ih htwin hquiet
    split
    · exact fun hquiet => ih h hquiet
    · exact fun hquiet => ih h hquiet

/-- The same line is typed. -/
lemma Twin.type (h : d.Twin part m₁ m₂) (htyped : d.typed) {editor : TerminalEditor}
    {history : Option History}
    (hquiet : d.Quiet (editor.readLine Completion.typed history m₂).2.2.2) :
    (editor.readLine Completion.typed history m₁).1 =
        (editor.readLine Completion.typed history m₂).1 ∧
      (editor.readLine Completion.typed history m₁).2.1 =
        (editor.readLine Completion.typed history m₂).2.1 ∧
      (editor.readLine Completion.typed history m₁).2.2.1 =
        (editor.readLine Completion.typed history m₂).2.2.1 ∧
      d.Twin part (editor.readLine Completion.typed history m₁).2.2.2
        (editor.readLine Completion.typed history m₂).2.2.2 := by
  have hread : d.Quiet
      (TerminalEditor.read Completion.typed [] editor.memory editor.keys m₂).2.2 := by
    revert hquiet
    rw [TerminalEditor.readLine, TerminalEditor.next]
    split
    · rename_i heq
      rw [heq]
      exact id
    · rename_i heq
      rw [heq]
      exact id
    · rename_i heq
      rw [heq]
      dsimp only
      split <;> exact id
  obtain ⟨hline, heditor, htwin⟩ := h.edit htyped hread
  rw [TerminalEditor.readLine, TerminalEditor.readLine, TerminalEditor.next, TerminalEditor.next]
  rcases h₁ : TerminalEditor.read Completion.typed [] editor.memory editor.keys m₁ with
    ⟨line, editor₁, n₁⟩
  rcases h₂ : TerminalEditor.read Completion.typed [] editor.memory editor.keys m₂ with
    ⟨line', editor₂, n₂⟩
  rw [h₁, h₂] at hline heditor htwin
  obtain rfl : line = line' := hline
  obtain rfl : editor₁ = editor₂ := heditor
  cases line with
  | ended => exact ⟨rfl, rfl, rfl, htwin⟩
  | interrupted => exact ⟨rfl, rfl, rfl, htwin⟩
  | line text =>
    dsimp only
    split <;> exact ⟨rfl, rfl, rfl, htwin⟩

/-! ### Sources of invocations -/

/-- The source of an invocation in the diverted machine. -/
def leadReader (d : Diversion) (part : Part) : Reader → Reader
  | .single line => .single line
  | .stream source buffer prompts =>
    .stream (d.lead part 0 source) buffer (prompts.map (d.lead part 1))
  | .terminal editor => .terminal editor

/-- The source of an invocation has nothing to do with the file itself. -/
def SoundReader (d : Diversion) : Reader → Prop
  | .single _ => True
  | .stream source _ prompts => d.Sound source ∧ ∀ e, prompts = some e → d.Sound e
  | .terminal _ => d.typed

/-- Prompts are written like any other output. -/
lemma Twin.prompted (h : d.Twin part m₁ m₂) (hpart : part.IsActive) {prompts : Option Endpoint}
    (hprompts : ∀ e, prompts = some e → d.Sound e) :
    d.Twin part (Interpreter.prompted (prompts.map (d.lead part 1)) m₁)
      (Interpreter.prompted prompts m₂) := by
  have hprompt : prompt m₁ = prompt m₂ := by
    obtain ⟨ρ, rfl, -⟩ := h
    rfl
  cases prompts with
  | none => exact h
  | some e =>
    simp only [Option.map_some, Interpreter.prompted, hprompt]
    split
    · exact h
    · exact h.writeTo (hprompts e rfl) (.inr hpart) _

lemma Twin.readLine (h : d.Twin part m₁ m₂) (hpart : part.IsActive) {r : Reader}
    (hr : d.SoundReader r) (hquiet : d.Quiet (Interpreter.readLine r m₂).2.2) :
    (Interpreter.readLine (d.leadReader part r) m₁).1 = (Interpreter.readLine r m₂).1 ∧
      (Interpreter.readLine (d.leadReader part r) m₁).2.1 =
        d.leadReader part (Interpreter.readLine r m₂).2.1 ∧
      d.Twin part (Interpreter.readLine (d.leadReader part r) m₁).2.2
        (Interpreter.readLine r m₂).2.2 ∧
      d.SoundReader (Interpreter.readLine r m₂).2.1 := by
  cases r with
  | single line => exact ⟨rfl, rfl, h, trivial⟩
  | stream source buffer prompts =>
    obtain ⟨hsource, hprompts⟩ : d.SoundReader (.stream source buffer prompts) := hr
    have hprompted := h.prompted hpart hprompts
    obtain ⟨hline, hbuffer, htwin⟩ := LineBuffer.next_alike
      (fun count {n₁ n₂} (hn : d.Twin part n₁ n₂) => hn.read hsource count)
      ((Interpreter.prompted prompts m₂).available source + buffer.pending.length + 4) []
      buffer hprompted
    show (Interpreter.readLine (.stream _ buffer _) m₁).1 = _ ∧
      (Interpreter.readLine (.stream _ buffer _) m₁).2.1 = _ ∧
      d.Twin part (Interpreter.readLine (.stream _ buffer _) m₁).2.2 _ ∧ _
    rw [readLine_stream, readLine_stream, hprompted.available hsource]
    rcases h₁ : LineBuffer.next (Machine.read (d.lead part 0 source))
      ((Interpreter.prompted prompts m₂).available source + buffer.pending.length + 4) [] buffer
      (Interpreter.prompted (prompts.map (d.lead part 1)) m₁) with ⟨line, buffer₁, n₁⟩
    rcases h₂ : LineBuffer.next (Machine.read source)
      ((Interpreter.prompted prompts m₂).available source + buffer.pending.length + 4) [] buffer
      (Interpreter.prompted prompts m₂) with ⟨line', buffer₂, n₂⟩
    rw [h₁, h₂] at hline hbuffer htwin
    obtain rfl : line = line' := hline
    obtain rfl : buffer₁ = buffer₂ := hbuffer
    match line with
    | .ok text => exact ⟨rfl, rfl, htwin, hsource, hprompts⟩
    | .error .endOfInput => exact ⟨rfl, rfl, htwin, hsource, hprompts⟩
    | .error (.file f) => exact ⟨rfl, rfl, htwin.complain _, hsource, hprompts⟩
    | .error (.plain f) => exact ⟨rfl, rfl, htwin.complain _, hsource, hprompts⟩
  | terminal editor =>
    have hhistory : m₁.host.history = m₂.host.history := by
      obtain ⟨ρ, rfl, -⟩ := h
      rfl
    have hedit : d.Quiet (editor.readLine Completion.typed m₂.host.history m₂).2.2.2 := hquiet
    obtain ⟨hline, heditor, hadded, htwin⟩ := h.type hr hedit
    simp only [leadReader, Interpreter.readLine, hhistory, hline, heditor, hadded]
    exact ⟨trivial, trivial, htwin.update (f := fun m => { m with host := { m.host with
      history := (editor.readLine Completion.typed m₂.host.history m₂).2.2.1 } })
        (fun _ => rfl) rfl, hr⟩

lemma Twin.openSource (h : d.Twin part m₁ m₂) {source : Source}
    (hquiet : d.Quiet (Interpreter.openSource source m₂).2) :
    (Interpreter.openSource source m₁).1 =
        (Interpreter.openSource source m₂).1.map (d.leadReader part) ∧
      d.Twin part (Interpreter.openSource source m₁).2 (Interpreter.openSource source m₂).2 ∧
      ∀ r, (Interpreter.openSource source m₂).1 = .ok r → d.SoundReader r := by
  have hsame : m₁.shell.console = m₂.shell.console ∧ m₁.host.history = m₂.host.history ∧
      ∀ path, m₁.resolve path = m₂.resolve path := by
    obtain ⟨ρ, rfl, -⟩ := h
    exact ⟨rfl, rfl, fun _ => rfl⟩
  cases source with
  | line text =>
    refine ⟨rfl, h, fun r hr => ?_⟩
    obtain rfl := Except.ok.inj hr
    trivial
  | console =>
    simp only [Interpreter.openSource, hsame.1, h.streams]
    split
    · refine ⟨rfl, h, fun r hr => ?_⟩
      obtain rfl := Except.ok.inj hr
      refine ⟨h.sound.1, fun e he => ?_⟩
      obtain rfl := Option.some.inj he
      exact h.sound.2.1
    · rename_i recalled hterminal
      have htyped := h.console hterminal
      obtain ⟨hkeys, htwin⟩ := h.readAll h.sound.1
      have hhistory : (m₁.readAll (d.lead part 0 m₂.shell.streams.input)).2.host.history =
          (m₂.readAll m₂.shell.streams.input).2.host.history := by
        obtain ⟨ρ, heq, -⟩ := htwin
        rw [heq]
        rfl
      simp only [leadAll, hkeys, hhistory]
      refine ⟨rfl, htwin, fun r hr => ?_⟩
      obtain rfl := Except.ok.inj hr
      exact htyped
    · exact ⟨rfl, h.complain _, fun r hr => by cases hr⟩
  | script path =>
    have hopen : d.Quiet (m₂.openFile (.open (m₂.resolve path))).2 := by
      revert hquiet
      simp only [Interpreter.openSource]
      split
      · rename_i heq
        rw [heq]
        exact id
      · rename_i heq
        rw [heq]
        exact fun hquiet => hquiet.of_evolves (Evolves.inputOutput.writeLine _ _ _)
    obtain ⟨hanswer, htwin, hfresh⟩ := h.openFile (.open _) hopen
    simp only [Interpreter.openSource, hsame.2.2]
    rcases h₁ : m₁.openFile (.open (m₂.resolve path)) with ⟨answer, n₁⟩
    rcases h₂ : m₂.openFile (.open (m₂.resolve path)) with ⟨answer', n₂⟩
    rw [h₁, h₂] at hanswer htwin
    rw [h₂] at hfresh
    obtain rfl : answer = answer'.map d.shift := hanswer
    cases answer' with
    | error f => exact ⟨rfl, htwin.complain _, fun r hr => by cases hr⟩
    | ok i =>
      refine ⟨rfl, htwin, fun r hr => ?_⟩
      obtain rfl := Except.ok.inj hr
      refine ⟨fun j hj heq => ?_, fun e he => by cases he⟩
      obtain rfl := Endpoint.file.inj heq
      exact hfresh i rfl hj

lemma Twin.closeReader (h : d.Twin part m₁ m₂) (r : Reader) :
    d.Twin part (Interpreter.closeReader (d.leadReader part r) m₁)
      (Interpreter.closeReader r m₂) := by
  cases r with
  | single line => exact h
  | terminal editor => exact h
  | stream source buffer prompts =>
    cases source with
    | null => exact h
    | file i => exact (h.closeHandle i).2
    | session =>
      rw [leadReader, lead_session (by simp)]
      exact h

end Diversion

end ConsoleShell
