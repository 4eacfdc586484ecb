/-
Tables after a history of calls.

A table is judged by what its callers have been told: which registrations were taken, and when
the table was cleared.  Whatever the index refuses on the way, the table lists the latest
definition of every name since it was last cleared, and finds what it lists.
-/
import ConsoleShell.Proofs.Table.Catalogue

namespace ConsoleShell

namespace Table

variable {β : Type}

/-! ### Calls and what comes of them -/

/-- A call that may change a table. -/
inductive Call (β : Type) where
  | register (signature : Signature) (body : Option β)
  /-- A registration after which a fault ends the program unless it is recovered from. -/
  | mustRegister (signature : Signature) (body : Option β)
  | registerVariable (v : Variable)
  | clear

namespace Call

/-- What a call does; the body is that of the command that shows variables. -/
def perform (varBody : β) (t : Table β) : Call β → Registration β
  | .register s body | .mustRegister s body => t.register s body
  | .registerVariable v => t.registerVariable varBody v
  | .clear => { table := t.clear }

end Call

/-- Something that has been done to a table. -/
inductive Deed (β : Type) where
  | command (c : Command β)
  | variable (v : Variable)
  | cleared

namespace Deed

/-- The command that comes with the first variable. -/
def opening (varBody : β) (first : Bool) : List (Deed β) :=
  if first then [.command ⟨varSignature, varBody⟩] else []

/-- What a call has done, latest first, as its fault tells; `first` if there was no variable. -/
def ofFault (varBody : β) (first : Bool) : Call β → Option Fault → List (Deed β)
  | .register s (some b), none => [.command ⟨s, b⟩]
  | .mustRegister s (some b), none => [.command ⟨s, b⟩]
  | .registerVariable v, none => .variable v :: opening varBody first
  | .registerVariable _, some (.variableRejected _) => opening varBody first
  | .clear, _ => [.cleared]
  | _, _ => []

lemma ofFault_mustRegister (varBody : β) (first : Bool) (s : Signature) (body : Option β)
    (fault : Option Fault) :
    ofFault varBody first (.mustRegister s body) fault =
      ofFault varBody first (.register s body) fault := by
  cases body <;> cases fault <;> rfl

end Deed

/-- The latest command with a name that has been registered since the table was cleared. -/
def latestCommand? (ds : List (Deed β)) (n : Bytes) : Option (Command β) :=
  match ds with
  | [] => none
  | .command c :: ds => if n = c.name then some c else latestCommand? ds n
  | .variable _ :: ds => latestCommand? ds n
  | .cleared :: _ => none

/-- The latest variable with a name that has been registered since the table was cleared. -/
def latestVariable? (ds : List (Deed β)) (n : Bytes) : Option Variable :=
  match ds with
  | [] => none
  | .command _ :: ds => latestVariable? ds n
  | .variable v :: ds => if n = v.name then some v else latestVariable? ds n
  | .cleared :: _ => none

/-- A table with what has been done to it, latest first. -/
structure History (β : Type) where
  table : Table β := {}
  deeds : List (Deed β) := []

namespace History

/-- Calls the table while its index refuses some names. -/
def step (varBody : β) (h : History β) (call : Refusal × Call β) : History β :=
  let t := { h.table with registry := { h.table.registry with refused := call.1 } }
  let r := call.2.perform varBody t
  ⟨r.table, Deed.ofFault varBody t.vars.isEmpty call.2 r.fault ++ h.deeds⟩

/-- The history of a table, which starts empty, under a list of calls. -/
def run (varBody : β) (calls : List (Refusal × Call β)) : History β :=
  calls.foldl (step varBody) {}

/-! ### What a step preserves -/

/-- Both catalogues of the table stand for what has been registered. -/
structure Faithful (h : History β) : Prop where
  commands : h.table.commandCatalogue.Represents Command.name
    (h.table.registry.find? commandDomain) (latestCommand? h.deeds)
  vars : h.table.variableCatalogue.Represents Variable.name
    (h.table.registry.find? variableDomain) (latestVariable? h.deeds)
  shown : h.table.vars ≠ [] → (latestCommand? h.deeds varSignature.name).isSome = true

namespace Faithful

variable {t : Table β} {ds : List (Deed β)} {c : Command β} {v : Variable}

lemma latestCommand?_command (ds : List (Deed β)) (c : Command β) :
    latestCommand? (.command c :: ds) =
      Function.update (latestCommand? ds) c.name (some c) := by
  funext n
  rw [Function.update_apply]
  rfl

lemma latestVariable?_variable (ds : List (Deed β)) (v : Variable) :
    latestVariable? (.variable v :: ds) =
      Function.update (latestVariable? ds) v.name (some v) := by
  funext n
  rw [Function.update_apply]
  rfl

/-- A command that is put is registered, unless the index refuses it and nothing changes. -/
lemma put (h : Faithful ⟨t, ds⟩) (c : Command β) :
    (t.put c).fault = some (.commandRejected c.name) ∧ (t.put c).table = t ∨
      (t.put c).fault = none ∧ Faithful ⟨(t.put c).table, .command c :: ds⟩ := by
  rw [Table.put]
  split
  · exact .inl ⟨rfl, rfl⟩
  · rename_i hfile
    refine .inr ⟨rfl, ?_, ?_, ?_⟩
    · rw [latestCommand?_command]
      exact h.commands.file hfile
    · rw [Catalogue.find?_of_file hfile (by decide)]
      exact h.vars
    · intro hvars
      rw [latestCommand?_command, Function.update_apply]
      split_ifs
      · rfl
      · exact h.shown hvars

/-- A variable that is put is registered, unless the index refuses it and nothing changes; the
command that shows variables is there. -/
lemma putVariable (h : Faithful ⟨t, ds⟩) (v : Variable)
    (hshown : (latestCommand? ds varSignature.name).isSome = true) :
    (t.putVariable v).fault = some (.variableRejected v.name) ∧ (t.putVariable v).table = t ∨
      (t.putVariable v).fault = none ∧
        Faithful ⟨(t.putVariable v).table, .variable v :: ds⟩ := by
  rw [Table.putVariable]
  split
  · exact .inl ⟨rfl, rfl⟩
  · rename_i hfile
    refine .inr ⟨rfl, ?_, ?_, fun _ => hshown⟩
    · rw [Catalogue.find?_of_file hfile (by decide)]
      exact h.commands
    · rw [latestVariable?_variable]
      exact h.vars.file hfile

lemma clear (h : Faithful ⟨t, ds⟩) : Faithful ⟨t.clear, .cleared :: ds⟩ where
  commands := h.commands.clear
  vars := h.vars.clear
  shown hvars := absurd rfl hvars

lemma register (h : Faithful ⟨t, ds⟩) (varBody : β) (first : Bool) (s : Signature)
    (body : Option β) :
    Faithful ⟨(t.register s body).table,
      Deed.ofFault varBody first (.register s body) (t.register s body).fault ++ ds⟩ := by
  rw [Table.register.eq_def]
  cases s.check with
  | error f => cases body <;> exact h
  | ok _ =>
    cases body with
    | none => exact h
    | some b =>
      obtain ⟨hfault, htable⟩ | ⟨hfault, hput⟩ := h.put ⟨s, b⟩
      · simpa [hfault, htable, Deed.ofFault] using h
      · simpa [hfault, Deed.ofFault] using hput

/-- The checks of a variable come before the index is asked. -/
lemma checkVariable_ne {f : Fault} (hf : checkVariable v = .error f) (n : Bytes) :
    f ≠ .variableRejected n := by
  rintro rfl
  rw [checkVariable] at hf
  split_ifs at hf
  · cases hf
  · split at hf <;> cases hf

lemma registerVariable (h : Faithful ⟨t, ds⟩) (varBody : β) (v : Variable) :
    Faithful ⟨(t.registerVariable varBody v).table,
      Deed.ofFault varBody t.vars.isEmpty (.registerVariable v)
        (t.registerVariable varBody v).fault ++ ds⟩ := by
  rw [Table.registerVariable]
  cases hcheck : checkVariable v with
  | error f =>
    have hne := checkVariable_ne hcheck
    cases f <;> first | exact h | exact absurd rfl (hne _)
  | ok _ =>
    dsimp only
    cases hfirst : t.vars.isEmpty with
    | false =>
      have hshown := h.shown (by simpa using hfirst)
      obtain ⟨hfault, htable⟩ | ⟨hfault, hput⟩ := h.putVariable v hshown
      · simpa [hfault, htable, Deed.ofFault, Deed.opening] using h
      · simpa [hfault, Deed.ofFault, Deed.opening] using hput
    | true =>
      obtain ⟨hfault, htable⟩ | ⟨hfault, hput⟩ := h.put ⟨varSignature, varBody⟩
      · simpa [hfault, htable, Deed.ofFault, Deed.opening] using h
      · have hshown : (latestCommand? (.command ⟨varSignature, varBody⟩ :: ds)
            varSignature.name).isSome = true := by
          simp [latestCommand?, Command.name]
        obtain ⟨hfault', htable⟩ | ⟨hfault', hput'⟩ := hput.putVariable v hshown
        · simpa [hfault, hfault', htable, Deed.ofFault, Deed.opening] using hput
        · simpa [hfault, hfault', Deed.ofFault, Deed.opening] using hput'

/-- The contract of the index holds whatever it refuses. -/
lemma refuse (h : Faithful ⟨t, ds⟩) (refusal : Refusal) :
    Faithful ⟨{ t with registry := { t.registry with refused := refusal } }, ds⟩ :=
  ⟨h.commands, h.vars, h.shown⟩

lemma step {h : History β} (hh : Faithful h) (varBody : β) (call : Refusal × Call β) :
    Faithful (h.step varBody call) := by
  obtain ⟨refusal, call⟩ := call
  have ht := hh.refuse refusal
  cases call with
  | register s body => exact ht.register varBody _ s body
  | mustRegister s body =>
    rw [History.step, Deed.ofFault_mustRegister]
    exact ht.register varBody _ s body
  | registerVariable v => exact ht.registerVariable varBody v
  | clear => exact ht.clear

lemma run (varBody : β) (calls : List (Refusal × Call β)) :
    Faithful (History.run varBody calls) := by
  have hfold : ∀ h : History β, Faithful h → Faithful (calls.foldl (History.step varBody) h) := by
    induction calls with
    | nil => exact fun h hh => hh
    | cons call calls ih => exact fun h hh => ih _ (hh.step varBody call)
  exact hfold {} ⟨.empty, .empty, fun hvars => absurd rfl hvars⟩

end Faithful

/-! ### What the table shows -/

/-- A listing and a lookup that both show the latest definition of every name. -/
structure Presents {α : Type} (name : α → Bytes) (xs : List α)
    (find? latest? : Bytes → Option α) : Prop where
  increasing : xs.Pairwise fun a b => (name a).lt (name b) = true
  /-- The listing has the latest definition of every name, and nothing else. -/
  mem_iff : ∀ n a, (a ∈ xs ∧ name a = n) ↔ latest? n = some a
  /-- A name is found if and only if it is listed, with the listed definition. -/
  find?_iff : ∀ n a, find? n = some a ↔ a ∈ xs ∧ name a = n

lemma presents {α : Type} {name : α → Bytes} {c : Catalogue α} {index : Bytes → Option Mark}
    {latest? : Bytes → Option α} (h : c.Represents name index latest?) :
    Presents name c.listed (fun n => c.find? (index n)) latest? := by
  have hmem : ∀ n a, (a ∈ c.listed ∧ name a = n) ↔ latest? n = some a := by
    intro n a
    rw [h.mem_listed]
    constructor
    · rintro ⟨ha, rfl⟩
      exact ha
    · intro ha
      obtain ⟨rfl, -⟩ := (h.map_eq n a).1 ha
      exact ⟨ha, rfl⟩
  exact ⟨h.pairwise_listed, hmem, fun n a => by rw [h.find?_eq, hmem]⟩

/-- Whatever is called and whatever the index refuses, the listings are in the order of names
and have the latest definition of every name registered since the table was cleared; a name is
found if and only if it is listed; what matches a pattern is the part of the listing that does;
and the command that shows variables is there when there are variables. -/
theorem run_presents_latest (varBody : β) (calls : List (Refusal × Call β)) :
    let h := History.run varBody calls
    Presents Command.name h.table.commands h.table.findCommand? (latestCommand? h.deeds) ∧
    Presents Variable.name h.table.vars h.table.findVariable? (latestVariable? h.deeds) ∧
    (∀ pattern, (h.table.matching pattern).Sublist h.table.commands ∧
      ∀ c, c ∈ h.table.matching pattern ↔
        c ∈ h.table.commands ∧ Glob.isMatch pattern c.name = true) ∧
    (∀ pattern, (h.table.matchingVariables pattern).Sublist h.table.vars ∧
      ∀ v, v ∈ h.table.matchingVariables pattern ↔
        v ∈ h.table.vars ∧ Glob.isMatch pattern v.name = true) ∧
    (h.table.vars ≠ [] → (h.table.findCommand? varSignature.name).isSome = true) := by
  intro h
  have hh : Faithful h := Faithful.run varBody calls
  refine ⟨presents hh.commands, presents hh.vars, fun pattern => ?_, fun pattern => ?_, ?_⟩
  · exact ⟨List.filter_sublist, fun c => List.mem_filter⟩
  · exact ⟨List.filter_sublist, fun v => List.mem_filter⟩
  · intro hvars
    rw [findCommand?, hh.commands.find?_eq]
    exact hh.shown hvars

/-- The first variable brings the command that shows variables. -/
theorem run_presents_latest_variable :
    ((History.run () [({}, .registerVariable ⟨[65], .int, .int [66]⟩)]).table.findCommand?
      varSignature.name).isSome = true :=
  (run_presents_latest () _).2.2.2.2 (by decide)

end History

end Table

end ConsoleShell
