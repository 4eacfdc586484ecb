/-
The list of sessions.

Shells that share a process start and end invocations whenever they like.  The outermost
invocation of a shell with a name lists it under that name, in place of another shell, and takes
it off the list in the end, unless another shell has its place.  Invocations inside it leave the
list alone.

The steps are the ones that `Interpreter.enter` and `Interpreter.leave` take under the lock of
the list, for any number of shells.  A run is any sequence of them, with anything else that the
process does in between.  One invariant says what every step preserves: the list holds, for each
name, the shell of that name that started last, as long as it runs.
-/
import ConsoleShell.Proofs.Lookup
import ConsoleShell.Proofs.Shell.Invocation
import ConsoleShell.Proofs.Text.Order

namespace ConsoleShell

/-! ### Names and entries -/

namespace Host

variable {h : Host} {name : Bytes} {id : Nat}

lemma session?_eq_some_iff (hnodup : (h.sessions.map Prod.fst).Nodup) :
    h.session? name = some id ↔ (name, id) ∈ h.sessions := by
  rw [session?, Option.map_eq_some_iff]
  simp only [find?_key_eq_some_iff hnodup]
  constructor
  · rintro ⟨x, ⟨hmem, rfl⟩, rfl⟩
    exact hmem
  · intro hmem
    exact ⟨(name, id), ⟨hmem, rfl⟩, rfl⟩

lemma mem_listing_iff {x : Bytes × Nat} : x ∈ h.listing ↔ x ∈ h.sessions :=
  List.mem_mergeSort

/-- The names on the list are in strictly increasing order. -/
lemma pairwise_listing (hnodup : (h.sessions.map Prod.fst).Nodup) :
    (h.listing.map Prod.fst).Pairwise fun a b => a.lt b = true := by
  have hsorted : h.listing.Pairwise fun a b => a.1.le b.1 = true :=
    @List.pairwise_mergeSort _ (fun a b : Bytes × Nat => a.1.le b.1)
      (fun _ _ _ => Bytes.le_trans) (fun a b => Bytes.le_total a.1 b.1) h.sessions
  have hdistinct : (h.listing.map Prod.fst).Nodup :=
    ((List.mergeSort_perm h.sessions _).map Prod.fst).nodup_iff.2 hnodup
  rw [List.Nodup, List.pairwise_map] at hdistinct
  rw [List.pairwise_map]
  exact hsorted.imp₂ (fun a b hle hne => (Bytes.le_iff.1 hle).resolve_right hne) hdistinct

end Host

namespace Interpreter

open Machine

variable {m : Machine} (context : Option Context) (scope : Scope) (defs : List Definition)

lemma shell_enter : (enter context scope defs m).shell = { m.shell with
    context, scopes := scope :: m.shell.scopes,
    definitions := some (((m.shell.definitions.getD {}).push).install defs) } := by
  obtain ⟨sessions, heq⟩ := enter_eq context scope defs m
  rw [heq]

lemma shell_leave : (leave context m).shell = { m.shell with
    context, scopes := m.shell.scopes.tail,
    definitions := if m.shell.scopes.tail.isEmpty then none
      else m.shell.definitions.map Definitions.pop } := by
  obtain ⟨sessions, heq⟩ := leave_eq context m
  rw [heq]

lemma sessions_enter_of_outermost (h : m.shell.scopes = []) (hname : m.shell.name ≠ []) :
    (enter context scope defs m).host.sessions =
      (m.shell.name, m.shell.id) :: m.host.sessions.filter fun s => s.1 != m.shell.name := by
  rw [enter]
  simp [h, hname, enlist]

lemma sessions_enter_of_inner (h : m.shell.scopes ≠ [] ∨ m.shell.name = []) :
    (enter context scope defs m).host.sessions = m.host.sessions := by
  rw [enter]
  rcases h with h | h <;> simp [h]

lemma sessions_leave_of_outermost (h : m.shell.scopes.tail = []) (hname : m.shell.name ≠ []) :
    (leave context m).host.sessions =
      m.host.sessions.filter fun s => s != (m.shell.name, m.shell.id) := by
  rw [leave]
  simp [h, hname, delist]

lemma sessions_leave_of_inner (h : m.shell.scopes.tail ≠ [] ∨ m.shell.name = []) :
    (leave context m).host.sessions = m.host.sessions := by
  rw [leave]
  rcases h with h | h <;> simp [h]

end Interpreter

namespace SessionList

open Interpreter

/-! ### Steps -/

/-- Shells in their process, by number. -/
structure State where
  shells : Nat → Shell
  host : Host

namespace State

/-- The machine in which a shell takes a step. -/
def machine (s : State) (i : Nat) : Machine := ⟨s.shells i, s.host⟩

/-- The shells and their process after the step of a shell. -/
def put (s : State) (i : Nat) (m : Machine) : State :=
  ⟨Function.update s.shells i m.shell, m.host⟩

/-- No shell runs an invocation, and none is listed. -/
structure Idle (s : State) : Prop where
  id : ∀ i, (s.shells i).id = i
  scopes : ∀ i, (s.shells i).scopes = []
  sessions : s.host.sessions = []

/-- Shells keep their numbers, their names and the invocations that they run, and the list of
sessions is left alone. -/
structure Quiet (s t : State) : Prop where
  id : ∀ i, (t.shells i).id = (s.shells i).id
  name : ∀ i, (t.shells i).name = (s.shells i).name
  scopes : ∀ i, (t.shells i).scopes.length = (s.shells i).scopes.length
  sessions : t.host.sessions = s.host.sessions

end State

/-- What happens in a step. -/
inductive Act where
  /-- The outermost invocation of a shell starts. -/
  | started (shell : Nat)
  /-- The outermost invocation of a shell ends. -/
  | ended (shell : Nat)
  /-- Something else happens, such as the start or the end of an invocation inside another. -/
  | other
  deriving DecidableEq, Repr

/-- The steps of shells that start and end invocations. -/
inductive Step : State → Act → State → Prop
  | start {s : State} (i : Nat) (context : Option Context) (scope : Scope)
    (defs : List Definition) (h : (s.shells i).scopes = []) :
    Step s (.started i) (s.put i (enter context scope defs (s.machine i)))
  | enter {s : State} (i : Nat) (context : Option Context) (scope : Scope)
    (defs : List Definition) (h : (s.shells i).scopes ≠ []) :
    Step s .other (s.put i (enter context scope defs (s.machine i)))
  | leave {s : State} (i : Nat) (context : Option Context) (h : (s.shells i).scopes.tail ≠ []) :
    Step s .other (s.put i (leave context (s.machine i)))
  | finish {s : State} (i : Nat) (context : Option Context) (h : (s.shells i).scopes ≠ [])
    (houtermost : (s.shells i).scopes.tail = []) :
    Step s (.ended i) (s.put i (leave context (s.machine i)))
  | other {s t : State} (h : s.Quiet t) : Step s .other t

/-- Steps that are taken one after the other. -/
inductive Run : State → List Act → State → Prop
  | nil (s : State) : Run s [] s
  | cons {s₁ s₂ s₃ : State} {a : Act} {as : List Act} :
    Step s₁ a s₂ → Run s₂ as s₃ → Run s₁ (a :: as) s₃

/-! ### What a run says about shells -/

/-- The outermost invocation of a shell has started, and what has happened since has the
property. -/
def Since (P : Act → Prop) (as : List Act) (i : Nat) : Prop :=
  ∃ before since, as = before ++ .started i :: since ∧ ∀ a ∈ since, P a

/-- The outermost invocation of a shell has started and has not ended. -/
def Running (as : List Act) (i : Nat) : Prop := Since (fun a => a ≠ .ended i) as i

/-- A shell is running, and no shell of the same name has started since it did. -/
def Latest (names : Nat → Bytes) (as : List Act) (i : Nat) : Prop :=
  Since (fun a => a ≠ .ended i ∧ ∀ j, names j = names i → a ≠ .started j) as i

variable {names : Nat → Bytes} {as : List Act} {a : Act} {i : Nat}

/-- Only the latest act tells whether a shell still runs. -/
lemma since_concat {P : Act → Prop} :
    Since P (as ++ [a]) i ↔ a = .started i ∨ (P a ∧ Since P as i) := by
  constructor
  · rintro ⟨before, since, heq, hsince⟩
    rcases since.eq_nil_or_concat' with rfl | ⟨since, x, rfl⟩
    · exact .inl (List.concat_inj.1 (by simpa using heq)).2
    · rw [← List.cons_append, ← List.append_assoc] at heq
      obtain ⟨rfl, hx⟩ := List.append_inj' heq rfl
      obtain rfl := List.singleton_inj.1 hx
      exact .inr ⟨hsince a (by simp), before, since, rfl, fun y hy => hsince y (by simp [hy])⟩
  · rintro (rfl | ⟨ha, before, since, rfl, hsince⟩)
    · exact ⟨as, [], rfl, by simp⟩
    · refine ⟨before, since ++ [a], by simp, fun x hx => ?_⟩
      rcases List.mem_append.1 hx with hx | hx
      · exact hsince x hx
      · rwa [List.mem_singleton.1 hx]

lemma not_since_nil {P : Act → Prop} : ¬ Since P [] i := by
  rintro ⟨before, since, heq, -⟩
  simp at heq

variable {j : Nat}

lemma running_started : Running (as ++ [.started i]) j ↔ i = j ∨ Running as j := by
  rw [Running, since_concat, ← Running]
  simp

lemma running_ended : Running (as ++ [.ended i]) j ↔ i ≠ j ∧ Running as j := by
  rw [Running, since_concat, ← Running]
  simp

lemma running_other : Running (as ++ [.other]) i ↔ Running as i := by
  rw [Running, since_concat, ← Running]
  simp

/-- A shell that starts takes the place of all others of its name. -/
lemma latest_started :
    Latest names (as ++ [.started i]) j ↔ i = j ∨ names i ≠ names j ∧ Latest names as j := by
  rw [Latest, since_concat, ← Latest]
  simp only [Act.started.injEq, ne_eq, reduceCtorEq, not_false_eq_true, true_and]
  refine or_congr_right (and_congr_left fun _ => ⟨fun h heq => h i heq rfl, ?_⟩)
  rintro h k hk rfl
  exact h hk

lemma latest_ended :
    Latest names (as ++ [.ended i]) j ↔ i ≠ j ∧ Latest names as j := by
  rw [Latest, since_concat, ← Latest]
  simp

lemma latest_other : Latest names (as ++ [.other]) i ↔ Latest names as i := by
  rw [Latest, since_concat, ← Latest]
  simp

lemma Latest.running (h : Latest names as i) : Running as i := by
  obtain ⟨before, since, rfl, hsince⟩ := h
  exact ⟨before, since, rfl, fun a ha => (hsince a ha).1⟩

/-! ### What every step preserves -/

namespace State

variable {s : State} {m : Machine} {i j : Nat}

lemma shells_put_self : (s.put i m).shells i = m.shell := by simp [put]

lemma shells_put_of_ne (h : j ≠ i) : (s.put i m).shells j = s.shells j := by simp [put, h]

/-- What a step of a shell keeps of that shell, it keeps of all shells. -/
lemma shells_put_of_eq {α : Type} {f : Shell → α} (h : f m.shell = f (s.shells i)) (j : Nat) :
    f ((s.put i m).shells j) = f (s.shells j) := by
  by_cases hj : j = i
  · rw [hj, shells_put_self, h]
  · rw [shells_put_of_ne hj]

end State

/-- What a run of acts leads to, by shells that have names. -/
structure Inv (names : Nat → Bytes) (as : List Act) (s : State) : Prop where
  own : ∀ i, (s.shells i).id = i ∧ (s.shells i).name = names i
  running : ∀ i, (s.shells i).scopes ≠ [] ↔ Running as i
  nodup : (s.host.sessions.map Prod.fst).Nodup
  /-- The list holds the shell of a name that started last, as long as it runs. -/
  listed : ∀ n i, (n, i) ∈ s.host.sessions ↔ n ≠ [] ∧ names i = n ∧ Latest names as i

namespace Inv

variable {s s' : State} {m : Machine}

lemma idle (h : s.Idle) : Inv (fun i => (s.shells i).name) [] s where
  own i := ⟨h.id i, rfl⟩
  running i := by simp [h.scopes i, Running, not_since_nil]
  nodup := by simp [h.sessions]
  listed n i := by simp [h.sessions, Latest, not_since_nil]

/-- Nothing starts and nothing ends. -/
lemma quiet (h : Inv names as s)
    (hown : ∀ i, (s'.shells i).id = (s.shells i).id ∧ (s'.shells i).name = (s.shells i).name)
    (hscopes : ∀ i, (s'.shells i).scopes.isEmpty = (s.shells i).scopes.isEmpty)
    (hsessions : s'.host.sessions = s.host.sessions) : Inv names (as ++ [.other]) s' where
  own i := ⟨(hown i).1.trans (h.own i).1, (hown i).2.trans (h.own i).2⟩
  running i := by
    rw [running_other, ← h.running, ne_eq, ne_eq, ← List.isEmpty_iff, ← List.isEmpty_iff, hscopes]
  nodup := hsessions ▸ h.nodup
  listed n i := by rw [hsessions, h.listed, latest_other]

section

variable (h : Inv names as s)
include h

/-- An invocation starts or ends inside another one. -/
lemma inner (hid : m.shell.id = (s.shells i).id) (hname : m.shell.name = (s.shells i).name)
    (hscopes : m.shell.scopes ≠ []) (hrunning : (s.shells i).scopes ≠ [])
    (hsessions : m.host.sessions = s.host.sessions) :
    Inv names (as ++ [.other]) (s.put i m) := by
  have hempty : m.shell.scopes.isEmpty = (s.shells i).scopes.isEmpty := by
    rw [List.isEmpty_eq_false_iff.2 hscopes, List.isEmpty_eq_false_iff.2 hrunning]
  exact h.quiet
    (fun j => ⟨State.shells_put_of_eq hid j, State.shells_put_of_eq hname j⟩)
    (State.shells_put_of_eq (f := fun s => s.scopes.isEmpty) hempty) hsessions

lemma own_put (hid : m.shell.id = i) (hname : m.shell.name = names i) (j : Nat) :
    ((s.put i m).shells j).id = j ∧ ((s.put i m).shells j).name = names j := by
  obtain ⟨hi, hni⟩ := h.own i
  rw [State.shells_put_of_eq (hid.trans hi.symm), State.shells_put_of_eq (hname.trans hni.symm)]
  exact h.own j

/-- The outermost invocation of a shell starts. -/
lemma started (hid : m.shell.id = i) (hname : m.shell.name = names i)
    (hscopes : m.shell.scopes ≠ [])
    (hsessions : m.host.sessions = if names i = [] then s.host.sessions
      else (names i, i) :: s.host.sessions.filter fun x => x.1 != names i) :
    Inv names (as ++ [.started i]) (s.put i m) where
  own := h.own_put hid hname
  running j := by
    rw [running_started, ← h.running j]
    by_cases hj : j = i
    · rw [hj, State.shells_put_self]
      exact iff_of_true hscopes (.inl rfl)
    · rw [State.shells_put_of_ne hj, or_iff_right (Ne.symm hj)]
  nodup := by
    show (m.host.sessions.map Prod.fst).Nodup
    rw [hsessions]
    split_ifs with hi
    · exact h.nodup
    · rw [List.map_cons, List.nodup_cons]
      exact ⟨by simp, h.nodup.sublist (List.filter_sublist.map Prod.fst)⟩
  listed n j := by
    show (n, j) ∈ m.host.sessions ↔ _
    rw [hsessions, latest_started]
    split_ifs with hi
    · rw [h.listed]
      refine and_congr_right fun hn => and_congr_right ?_
      rintro rfl
      -- a shell without a name takes no place
      have hij : names i ≠ names j := fun heq => hn (heq ▸ hi)
      exact ⟨fun hj => .inr ⟨hij, hj⟩, fun hj => (hj.resolve_left fun heq => hij (heq ▸ rfl)).2⟩
    · rw [List.mem_cons, List.mem_filter, h.listed, Prod.mk.injEq, bne_iff_ne]
      constructor
      · rintro (⟨rfl, rfl⟩ | ⟨⟨hn, rfl, hj⟩, hne⟩)
        · exact ⟨hi, rfl, .inl rfl⟩
        · exact ⟨hn, rfl, .inr ⟨Ne.symm hne, hj⟩⟩
      · rintro ⟨hn, rfl, rfl | ⟨hne, hj⟩⟩
        · exact .inl ⟨rfl, rfl⟩
        · exact .inr ⟨⟨hn, rfl, hj⟩, Ne.symm hne⟩

/-- The outermost invocation of a shell ends. -/
lemma ended (hid : m.shell.id = i) (hname : m.shell.name = names i) (hscopes : m.shell.scopes = [])
    (hsessions : m.host.sessions = if names i = [] then s.host.sessions
      else s.host.sessions.filter fun x => x != (names i, i)) :
    Inv names (as ++ [.ended i]) (s.put i m) where
  own := h.own_put hid hname
  running j := by
    rw [running_ended, ← h.running j]
    by_cases hj : j = i
    · rw [hj, State.shells_put_self]
      exact iff_of_false (not_not.2 hscopes) fun hrunning => hrunning.1 rfl
    · rw [State.shells_put_of_ne hj, and_iff_right (Ne.symm hj)]
  nodup := by
    show (m.host.sessions.map Prod.fst).Nodup
    rw [hsessions]
    split_ifs with hi
    · exact h.nodup
    · exact h.nodup.sublist (List.filter_sublist.map Prod.fst)
  listed n j := by
    show (n, j) ∈ m.host.sessions ↔ _
    rw [hsessions, latest_ended]
    split_ifs with hi
    · rw [h.listed]
      refine and_congr_right fun hn => and_congr_right ?_
      rintro rfl
      have hij : i ≠ j := fun heq => hn (heq ▸ hi)
      exact ⟨fun hj => ⟨hij, hj⟩, And.right⟩
    · rw [List.mem_filter, h.listed, bne_iff_ne]
      constructor
      · rintro ⟨⟨hn, rfl, hj⟩, hne⟩
        exact ⟨hn, rfl, fun heq => hne (heq ▸ rfl), hj⟩
      · rintro ⟨hn, rfl, hne, hj⟩
        exact ⟨⟨hn, rfl, hj⟩, fun heq => hne (Prod.mk.inj heq).2.symm⟩

lemma step (hstep : Step s a s') : Inv names (as ++ [a]) s' := by
  cases hstep with
  | start i context scope defs hidle =>
    obtain ⟨hid, hname⟩ := h.own i
    refine h.started ?_ ?_ ?_ ?_
    · rwa [shell_enter]
    · rwa [shell_enter]
    · rw [shell_enter]
      exact List.cons_ne_nil _ _
    · rw [← hname]
      split_ifs with hi
      · exact sessions_enter_of_inner _ _ _ (.inr hi)
      · rw [sessions_enter_of_outermost _ _ _ hidle hi]
        simp only [State.machine, hid]
  | enter i context scope defs hrunning =>
    refine h.inner ?_ ?_ ?_ hrunning (sessions_enter_of_inner _ _ _ (.inl hrunning))
    · rw [shell_enter]
      rfl
    · rw [shell_enter]
      rfl
    · rw [shell_enter]
      exact List.cons_ne_nil _ _
  | leave i context hscopes =>
    refine h.inner ?_ ?_ ?_ ?_ (sessions_leave_of_inner _ (.inl hscopes))
    · rw [shell_leave]
      rfl
    · rw [shell_leave]
      rfl
    · rwa [shell_leave]
    · exact fun hnil => hscopes (by rw [hnil, List.tail_nil])
  | finish i context hrunning houtermost =>
    obtain ⟨hid, hname⟩ := h.own i
    refine h.ended ?_ ?_ ?_ ?_
    · rwa [shell_leave]
    · rwa [shell_leave]
    · rwa [shell_leave]
    · rw [← hname]
      split_ifs with hi
      · exact sessions_leave_of_inner _ (.inr hi)
      · rw [sessions_leave_of_outermost _ houtermost hi]
        simp only [State.machine, hid]
  | other hquiet =>
    refine h.quiet (fun i => ⟨hquiet.id i, hquiet.name i⟩) (fun i => ?_) hquiet.sessions
    rw [Bool.eq_iff_iff, List.isEmpty_iff_length_eq_zero, List.isEmpty_iff_length_eq_zero,
      hquiet.scopes]

end

lemma run {bs : List Act} (h : Inv names as s) (hrun : Run s bs s') : Inv names (as ++ bs) s' := by
  induction hrun generalizing as with
  | nil s => rwa [List.append_nil]
  | cons hstep _ ih => simpa using ih (h.step hstep)

end Inv

/-! ### The list of sessions -/

/-- What shells with names see on the list of sessions after a run. -/
structure Shows (names : Nat → Bytes) (as : List Act) (s : State) : Prop where
  own : ∀ i, (s.shells i).id = i ∧ (s.shells i).name = names i
  /-- A shell runs from the start of its outermost invocation to its end. -/
  running : ∀ i, (s.shells i).scopes ≠ [] ↔ Running as i
  /-- Under a name stands the running shell of that name, if there is one after whose start no
  shell of the name has started.  Under no name there is nothing. -/
  session : ∀ n i, s.host.session? n = some i ↔ n ≠ [] ∧ names i = n ∧ Latest names as i
  /-- The list holds just these shells, -/
  listing : ∀ n i, (n, i) ∈ s.host.listing ↔ n ≠ [] ∧ names i = n ∧ Latest names as i
  /-- all of which run, -/
  listing_running : ∀ n i, (n, i) ∈ s.host.listing → Running as i
  /-- in strictly increasing order of their names. -/
  increasing : (s.host.listing.map Prod.fst).Pairwise fun a b => a.lt b = true

lemma Inv.shows {s : State} (h : Inv names as s) : Shows names as s where
  own := h.own
  running := h.running
  session n i := by rw [Host.session?_eq_some_iff h.nodup, h.listed]
  listing n i := by rw [Host.mem_listing_iff, h.listed]
  listing_running n i hmem := ((h.listed n i).1 (Host.mem_listing_iff.1 hmem)).2.2.running
  increasing := Host.pairwise_listing h.nodup

/-- **The list of sessions never shows a shell that has finished.**  However shells that share a
process start and end their invocations, each shell on the list is running, under its own name,
and no shell stands there without one; the names increase strictly; and a running shell with a
name is on the list exactly if no shell of the same name has started since it did. -/
theorem shows_of_run {s₀ s : State} (hidle : s₀.Idle) (hrun : Run s₀ as s) :
    Shows (fun i => (s₀.shells i).name) as s :=
  ((Inv.idle hidle).run hrun).shows

/-- Two shells of one name, one without a name and one of another name: the second shell takes
the place of the first, whose end leaves the list alone. -/
theorem shows_of_run_same_name :
    ∃ s₀ s : State, ∃ as, as = [.started 0, .started 1, .started 2, .started 3, .ended 0] ∧
      s₀.Idle ∧ Run s₀ as s ∧ Shows (fun i => (s₀.shells i).name) as s ∧
      s.host.session? "b" = some 1 ∧ s.host.session? "a" = some 3 ∧ s.host.session? "" = none := by
  let names : Nat → Bytes := fun i => if i ≤ 1 then "b" else if i = 2 then "" else "a"
  let s₀ : State := ⟨fun i => { id := i, name := names i }, {}⟩
  have hidle : s₀.Idle := ⟨fun _ => rfl, fun _ => rfl, rfl⟩
  have hrun : ∃ s, Run s₀ [.started 0, .started 1, .started 2, .started 3, .ended 0] s ∧
      s.host.session? "b" = some 1 ∧ s.host.session? "a" = some 3 ∧
        s.host.session? "" = none :=
    ⟨_, .cons (.start 0 none {} [] rfl) <| .cons (.start 1 none {} [] rfl) <|
      .cons (.start 2 none {} [] rfl) <| .cons (.start 3 none {} [] rfl) <|
      .cons (.finish 0 none (List.cons_ne_nil _ _) rfl) <| .nil _, rfl, rfl, rfl⟩
  obtain ⟨s, hrun, hsessions⟩ := hrun
  exact ⟨s₀, s, _, rfl, hidle, hrun, shows_of_run hidle hrun, hsessions⟩

/-- A running shell is not listed again when the shell that took its place has ended, though no
other shell of its name runs. -/
theorem not_listed_after_replacement :
    ¬ ∀ (s₀ s : State) (as : List Act), s₀.Idle → Run s₀ as s →
      (∀ i j, Running as i → Running as j → (s.shells i).name ≠ [] →
        (s.shells i).name = (s.shells j).name → i = j) →
      ∀ i, Running as i → (s.shells i).name ≠ [] → ((s.shells i).name, i) ∈ s.host.listing := by
  intro hclaim
  let s₀ : State := ⟨fun i => { id := i, name := "a" }, {}⟩
  let as : List Act := [.started 0, .started 1, .ended 1]
  have hidle : s₀.Idle := ⟨fun _ => rfl, fun _ => rfl, rfl⟩
  obtain ⟨s, hrun⟩ : ∃ s, Run s₀ as s :=
    ⟨_, .cons (.start 0 none {} [] rfl) <| .cons (.start 1 none {} [] rfl) <|
      .cons (.finish 1 none (List.cons_ne_nil _ _) rfl) <| .nil _⟩
  have hshows : Shows (fun i => (s₀.shells i).name) as s := ((Inv.idle hidle).run hrun).shows
  have has : as = (([] ++ [.started 0]) ++ [.started 1]) ++ [.ended 1] := rfl
  have hrunning : ∀ i, Running as i ↔ i = 0 := by
    intro i
    have hnone : ¬ Running [] i := not_since_nil
    rw [has, running_ended, running_started, running_started, or_iff_left hnone]
    omega
  have hname : (s.shells 0).name = "a" := (hshows.own 0).2
  have hlisted := hclaim s₀ s as hidle hrun
    (fun i j hi hj _ _ => by rw [(hrunning i).1 hi, (hrunning j).1 hj]) 0 ((hrunning 0).2 rfl)
    (by rw [hname]; decide)
  obtain ⟨-, -, hlatest⟩ := (hshows.listing _ 0).1 hlisted
  rw [has, latest_ended, latest_started] at hlatest
  obtain ⟨-, hreplaced | ⟨hother, -⟩⟩ := hlatest
  · cases hreplaced
  · exact hother rfl

end SessionList

end ConsoleShell
