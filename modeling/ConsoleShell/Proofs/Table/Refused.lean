/-
Registrations that a table does not take.

A registration that fails leaves every answer of the table as it was, with one exception.  The
first variable of a table brings the command that shows variables, and that command is registered
before the index is asked about the variable: if the index then refuses the variable, the command
is there although no variable is.

The index may be shared.  What others store in it changes what is found, but not how the listing
is kept, which is all that the argument needs.
-/
import ConsoleShell.Proofs.Table.History

namespace ConsoleShell

/-! ### Catalogues with an index of others -/

namespace Catalogue

variable {α : Type} {name : α → Bytes} {domain : Bytes} {c c' : Catalogue α} {a : α}

/-- With an index of its own the catalogue would stand for a map. -/
def Sound (name : α → Bytes) (domain : Bytes) (c : Catalogue α) : Prop :=
  ∃ (own : Registry Mark) (f : Bytes → Option α), c.Represents name (own.find? domain) f

lemma sound_empty : Sound name domain {} := ⟨{}, _, .empty⟩

namespace Sound

lemma clear (h : Sound name domain c) : Sound name domain c.clear := by
  obtain ⟨own, f, h⟩ := h
  exact ⟨own, _, h.clear⟩

/-- Filing a definition in an index of others updates the map all the same: that index only
decides whether the definition is filed. -/
lemma exists_file {registry registry' : Registry Mark} (h : Sound name domain c)
    (hfile : c.file? name registry domain a = some (c', registry')) :
    ∃ (own : Registry Mark) (f : Bytes → Option α),
      c'.Represents name (own.find? domain) (Function.update f (name a) (some a)) := by
  obtain ⟨own, f, h⟩ := h
  suffices hown : ∃ own', c.file? name { own with refused := {} } domain a = some (c', own') by
    obtain ⟨own', hown⟩ := hown
    have hfree : c.Represents name (Registry.find? { own with refused := {} } domain) f := h
    exact ⟨own', f, hfree.file hown⟩
  rw [file?] at hfile ⊢
  split at hfile
  · obtain ⟨rfl, -⟩ := Prod.mk.inj (Option.some.inj hfile)
    exact ⟨_, rfl⟩
  · obtain ⟨r, hadd, hfile⟩ := Option.map_eq_some_iff.1 hfile
    obtain ⟨rfl, -⟩ := Prod.mk.inj hfile
    have hname : (name a).isEmpty = false := by
      rw [Registry.add?] at hadd
      split at hadd
      · cases hadd
      · rename_i hrefused
        exact Bool.eq_false_iff.2 fun hempty => hrefused (by rw [hempty, Bool.true_or])
    exact ⟨_, by simp only [Registry.add?, hname, Bool.or_self, Bool.false_eq_true, if_false]; rfl⟩

lemma file {registry registry' : Registry Mark} (h : Sound name domain c)
    (hfile : c.file? name registry domain a = some (c', registry')) : Sound name domain c' := by
  obtain ⟨own, f, h⟩ := h.exists_file hfile
  exact ⟨own, _, h⟩

/-- What has been filed is listed. -/
lemma mem_listed_file {registry registry' : Registry Mark} (h : Sound name domain c)
    (hfile : c.file? name registry domain a = some (c', registry')) : a ∈ c'.listed := by
  obtain ⟨own, f, h⟩ := h.exists_file hfile
  exact h.mem_listed.2 (Function.update_self ..)

/-- A definition that is listed already is filed without any change. -/
lemma file_of_mem_listed (h : Sound name domain c) (ha : a ∈ c.listed) (registry : Registry Mark) :
    c.file? name registry domain a = some (c, registry) := by
  obtain ⟨own, f, h⟩ := h
  obtain ⟨id, hid, hdefinition⟩ := List.mem_filterMap.1 ha
  have hheld : c.holder? name (name a) = some (id, a) :=
    (holder?_eq_some_iff (fun _ => h.valid) h.increasing).2 ⟨hid, hdefinition, rfl⟩
  have hsame : c.overwrite id a = c := by
    have hrecords : (c.overwrite id a).records = c.records := by
      refine List.ext_getElem? fun i => ?_
      rw [records_overwrite]
      cases hi : c.records[i]? with
      | none => rfl
      | some r =>
        rw [Option.map_some]
        split_ifs with heq
        · subst heq
          obtain rfl : r.definition = a := by simpa [definition?, hi] using hdefinition
          rfl
        · rfl
    exact congrArg (fun records => { c with records }) hrecords
  rw [file?, hheld]
  simp only [hsame]

end Sound

end Catalogue

namespace Table

variable {β : Type} {varBody : β} {t : Table β}

/-! ### Tables that can come about -/

/-- Tables that come about by calls, by setting the handle, and by what others do to the index:
they may store in it what they like, and it may refuse any names at any time. -/
inductive Reachable (varBody : β) : Table β → Prop
  | start : Reachable varBody {}
  | call {t : Table β} (h : Reachable varBody t) (call : Call β) :
    Reachable varBody (call.perform varBody t).table
  | handle {t : Table β} (h : Reachable varBody t) (handle : Option Handle) :
    Reachable varBody { t with handle }
  | index {t : Table β} (h : Reachable varBody t) (registry : Registry Mark) :
    Reachable varBody { t with registry }

/-- The outcome of taking a command: either the index refuses it and nothing happens, or it is
filed. -/
lemma put_cases (t : Table β) (c : Command β) :
    (t.put c).fault = some (.commandRejected c.name) ∧ (t.put c).table = t ∨
      ∃ catalogue registry,
        t.commandCatalogue.file? Command.name t.registry commandDomain c =
          some (catalogue, registry) ∧
        (t.put c).fault = none ∧
        (t.put c).table = { t with commandCatalogue := catalogue, registry } := by
  rw [put]
  cases hfile : t.commandCatalogue.file? Command.name t.registry commandDomain c with
  | none => exact .inl ⟨rfl, rfl⟩
  | some e => exact .inr ⟨e.1, e.2, rfl, rfl, rfl⟩

/-- The outcome of taking a variable leaves the commands alone, and everything if the index
refuses the variable. -/
lemma putVariable_cases (t : Table β) (v : Variable) :
    (t.putVariable v).fault = some (.variableRejected v.name) ∧ (t.putVariable v).table = t ∨
      (t.putVariable v).fault = none ∧
        (t.putVariable v).table.commandCatalogue = t.commandCatalogue := by
  rw [putVariable]
  cases t.variableCatalogue.file? Variable.name t.registry variableDomain v with
  | none => exact .inl ⟨rfl, rfl⟩
  | some e => exact .inr ⟨rfl, rfl⟩

/-- A command that is not taken leaves the table alone. -/
lemma register_of_fault {s : Signature} {body : Option β} {f : Fault}
    (hf : (t.register s body).fault = some f) :
    (t.register s body).table = t ∧ ∀ n, f ≠ .variableRejected n := by
  rw [register.eq_def] at hf ⊢
  cases hcheck : s.check with
  | error e =>
    simp only [hcheck, Option.some.injEq] at hf
    subst hf
    exact ⟨rfl, by simp⟩
  | ok _ =>
    cases body with
    | none =>
      simp only [hcheck, Option.some.injEq] at hf
      subst hf
      exact ⟨rfl, by simp⟩
    | some b =>
      simp only [hcheck] at hf ⊢
      obtain ⟨hfault, htable⟩ | ⟨catalogue, registry, -, hfault, -⟩ := t.put_cases ⟨s, b⟩
      · obtain rfl := Option.some.inj (hfault.symm.trans hf)
        exact ⟨htable, by simp⟩
      · rw [hf] at hfault
        cases hfault

/-- A table that has refused its first variable after filing the command that comes with it. -/
def HalfTaken (varBody : β) (t t' : Table β) : Prop :=
  t.vars = [] ∧ ∃ catalogue registry,
    t.commandCatalogue.file? Command.name t.registry commandDomain ⟨varSignature, varBody⟩ =
      some (catalogue, registry) ∧
    t' = { t with commandCatalogue := catalogue, registry }

/-- A variable that is not taken leaves the table alone, unless it is the first one and the index
refuses the variable but not the command that comes with it. -/
lemma registerVariable_of_fault {v : Variable} {f : Fault}
    (hf : (t.registerVariable varBody v).fault = some f) :
    ((t.registerVariable varBody v).table = t ∧
        ((∀ n, f ≠ .variableRejected n) ∨ t.vars ≠ [])) ∨
      f = .variableRejected v.name ∧
        HalfTaken varBody t (t.registerVariable varBody v).table := by
  rw [registerVariable] at hf ⊢
  cases hcheck : checkVariable v with
  | error e =>
    simp only [hcheck, Option.some.injEq] at hf
    subst hf
    exact .inl ⟨rfl, .inl (History.Faithful.checkVariable_ne hcheck)⟩
  | ok _ =>
    simp only [hcheck] at hf ⊢
    cases hvars : t.vars.isEmpty with
    | false =>
      simp only [hvars, Bool.false_eq_true, if_false] at hf ⊢
      obtain ⟨-, htable⟩ | ⟨hfault, -⟩ := t.putVariable_cases v
      · exact .inl ⟨htable, .inr (by simpa using hvars)⟩
      · rw [hf] at hfault
        cases hfault
    | true =>
      simp only [hvars, if_true] at hf ⊢
      obtain ⟨hfault, htable⟩ | ⟨catalogue, registry, hfile, hfault, htable⟩ :=
        t.put_cases ⟨varSignature, varBody⟩
      · simp only [hfault, Option.some.injEq] at hf ⊢
        subst hf
        exact .inl ⟨htable, .inl (by simp)⟩
      · simp only [hfault] at hf ⊢
        obtain ⟨hfault', htable'⟩ | ⟨hfault', -⟩ := Table.putVariable_cases _ v
        · refine .inr ⟨Option.some.inj (hf.symm.trans hfault'), by simpa using hvars, catalogue,
            registry, hfile, htable'.trans htable⟩
        · rw [hf] at hfault'
          cases hfault'

/-! ### The listing of commands -/

lemma sound_put (ht : t.commandCatalogue.Sound Command.name commandDomain) (c : Command β) :
    (t.put c).table.commandCatalogue.Sound Command.name commandDomain := by
  obtain ⟨-, htable⟩ | ⟨catalogue, registry, hfile, -, htable⟩ := t.put_cases c
  · rwa [htable]
  · rw [htable]
    exact ht.file hfile

lemma sound_putVariable (ht : t.commandCatalogue.Sound Command.name commandDomain) (v : Variable) :
    (t.putVariable v).table.commandCatalogue.Sound Command.name commandDomain := by
  obtain ⟨-, htable⟩ | ⟨-, htable⟩ := t.putVariable_cases v
  · rwa [htable]
  · rwa [htable]

lemma sound_register (ht : t.commandCatalogue.Sound Command.name commandDomain) (s : Signature)
    (body : Option β) :
    (t.register s body).table.commandCatalogue.Sound Command.name commandDomain := by
  rw [register.eq_def]
  cases s.check with
  | error f => exact ht
  | ok _ =>
    cases body with
    | none => exact ht
    | some b => exact sound_put ht _

lemma sound_registerVariable (ht : t.commandCatalogue.Sound Command.name commandDomain)
    (v : Variable) :
    (t.registerVariable varBody v).table.commandCatalogue.Sound Command.name commandDomain := by
  rw [registerVariable]
  cases checkVariable v with
  | error f => exact ht
  | ok _ =>
    dsimp only
    split_ifs
    · split
      · exact sound_put ht _
      · exact sound_putVariable (sound_put ht _) v
    · exact sound_putVariable ht v

/-- The listing of commands is kept in order whatever others do to the index. -/
lemma Reachable.sound (h : Reachable varBody t) :
    t.commandCatalogue.Sound Command.name commandDomain := by
  induction h with
  | start => exact Catalogue.sound_empty
  | call _ call ih =>
    cases call with
    | register s body => exact sound_register ih s body
    | mustRegister s body => exact sound_register ih s body
    | registerVariable v => exact sound_registerVariable ih v
    | clear => exact ih.clear
  | handle _ _ ih => exact ih
  | index _ _ ih => exact ih

/-! ### What a caller sees -/

/-- Two tables answer everything alike. -/
structure Alike (t t' : Table β) : Prop where
  commands : t'.commands = t.commands
  vars : t'.vars = t.vars
  findCommand? : ∀ n, t'.findCommand? n = t.findCommand? n
  findVariable? : ∀ n, t'.findVariable? n = t.findVariable? n
  handle : t'.handle = t.handle

lemma Alike.refl (t : Table β) : Alike t t := ⟨rfl, rfl, fun _ => rfl, fun _ => rfl, rfl⟩

lemma Alike.of_eq {t' : Table β} (h : t' = t) : Alike t t' := h ▸ .refl t

/-- A call that fails leaves every answer of the table as it was, if and only if it does not
refuse the first variable of the table while the command that comes with it is new. -/
theorem alike_of_fault_iff (ht : Reachable varBody t) {call : Call β} {f : Fault}
    (hf : (call.perform varBody t).fault = some f) :
    Alike t (call.perform varBody t).table ↔
      ¬ ((∃ n, f = .variableRejected n) ∧ t.vars = [] ∧ ⟨varSignature, varBody⟩ ∉ t.commands) := by
  -- either nothing has changed, or the command has been filed
  have hcases : ((call.perform varBody t).table = t ∧
      ((∀ n, f ≠ .variableRejected n) ∨ t.vars ≠ [])) ∨
      (∃ n, f = .variableRejected n) ∧ HalfTaken varBody t (call.perform varBody t).table := by
    cases call with
    | register s body => exact .inl ((register_of_fault hf).imp_right .inl)
    | mustRegister s body => exact .inl ((register_of_fault hf).imp_right .inl)
    | registerVariable v =>
      exact (registerVariable_of_fault hf).imp_right (.imp_left fun h => ⟨_, h⟩)
    | clear => cases hf
  obtain ⟨htable, hwhy⟩ | ⟨hrejected, hvars, catalogue, registry, hfile, htable⟩ := hcases
  · refine iff_of_true (.of_eq htable) ?_
    rintro ⟨⟨n, hn⟩, hvars, -⟩
    exact hwhy.elim (fun h => h n hn) fun h => h hvars
  · by_cases hlisted : (⟨varSignature, varBody⟩ : Command β) ∈ t.commands
    · have hsame := ht.sound.file_of_mem_listed hlisted t.registry
      obtain ⟨rfl, rfl⟩ := Prod.mk.inj (Option.some.inj (hfile.symm.trans hsame))
      exact iff_of_true (.of_eq htable) fun h => h.2.2 hlisted
    · refine iff_of_false (fun h => hlisted ?_) fun h => h ⟨hrejected, hvars, hlisted⟩
      rw [← h.commands, htable]
      exact ht.sound.mem_listed_file hfile

/-- The index refuses the second variable of a table. -/
theorem alike_of_fault_iff_second_variable :
    let one : Call Unit := .registerVariable ⟨[65], .int, .int [67]⟩
    let other : Call Unit := .registerVariable ⟨[66], .double, .double [67]⟩
    let t : Table Unit := (one.perform () {}).table
    let t : Table Unit :=
      { t with registry := { t.registry with refused := ([[66]] : List Bytes) } }
    (other.perform () t).fault = some (.variableRejected [66]) ∧
      Alike t (other.perform () t).table := by
  intro one other t₀ t
  have ht : Reachable () t := .index (.call .start one) _
  have hfault : (other.perform () t).fault = some (.variableRejected [66]) := by decide +kernel
  have hvars : t.vars ≠ [] := by decide +kernel
  exact ⟨hfault, (alike_of_fault_iff ht hfault).2 fun h => hvars h.2.1⟩

/-- The index refuses the first variable of a table, which has one more command afterwards. -/
theorem refused_first_variable_brings_command :
    let t : Table Unit := { registry := { refused := ([[65]] : List Bytes) } }
    let r := t.registerVariable () ⟨[65], .int, .int [67]⟩
    Reachable () t ∧ r.fault = some (.variableRejected [65]) ∧ ¬ Alike t r.table := by
  intro t r
  refine ⟨.index .start _, by decide +kernel, fun h => ?_⟩
  have hlength := congrArg List.length h.commands
  exact absurd hlength (by decide +kernel)

end Table

end ConsoleShell
