/-
Scopes of definitions.

A name stands for its innermost definition, and without one for what the fallback knows.
Whatever is done between the beginning of a scope and its end, the scopes around it lose the
names that were cleared meanwhile and nothing else.
-/
import ConsoleShell.Proofs.Lookup
import ConsoleShell.Substitution

namespace ConsoleShell

namespace Frame

variable (f : Frame) (name : Bytes)

/-- Definitions are kept or dropped by their names. -/
lemma find?_filter (keep : Bytes → Bool) :
    Frame.find? (List.filter (fun d => keep d.name) f) name =
      if keep name then Frame.find? f name else none := by
  rw [Frame.find?, find?_filter_key Definition.name]
  split <;> rfl

lemma find?_erase (other : Bytes) :
    Frame.find? (Frame.erase f name) other = if other = name then none else Frame.find? f other := by
  rw [Frame.erase, find?_filter f other (· != name)]
  by_cases h : other = name <;> simp [h]

lemma find?_put {x : Definition} (h : x.name ≠ name) :
    Frame.find? (Frame.put f x) name = Frame.find? f name := by
  have herased : Frame.find? (Frame.put f x) name = Frame.find? (Frame.erase f x.name) name := by
    simp [Frame.put, Frame.find?, h]
  rw [herased, find?_erase, if_neg h.symm]

end Frame

namespace Definitions

variable {d : Definitions} {name : Bytes} {fallback : Bytes → Option Bytes}

@[simp] lemma frames_push (d : Definitions) : d.push.frames = [] :: d.frames := rfl

@[simp] lemma frames_clear (d : Definitions) (name : Bytes) :
    (d.clear name).frames = d.frames.map fun f => Frame.erase f name := rfl

/-- Definitions are made in the innermost scope only. -/
lemma outer_install (d : Definitions) (xs : List Definition) : (d.install xs).outer = d.outer := by
  unfold install
  induction xs generalizing d with
  | nil => rfl
  | cons x xs ih => exact ih (d.put x)

lemma frames_pop {f g : Frame} {gs : List Frame} (h : d.frames = f :: g :: gs) :
    d.pop.frames = g :: gs := by
  rw [frames, List.cons.injEq] at h
  rw [pop, h.2]
  rfl

/-! ### Names without a definition -/

/-- No scope has a definition of the name. -/
def Lacks (d : Definitions) (name : Bytes) : Prop := ∀ f ∈ d.frames, Frame.find? f name = none

lemma lacks_empty (name : Bytes) : Lacks {} name := by simp [Lacks, frames, Frame.find?]

lemma Lacks.lookup (h : d.Lacks name) (fallback : Bytes → Option Bytes) :
    d.lookup fallback name = fallback name := by
  rw [Definitions.lookup, List.findSome?_eq_none_iff.2 h, Option.none_or]

lemma lacks_clear (d : Definitions) (name : Bytes) : (d.clear name).Lacks name := by
  simp [Lacks, Frame.find?_erase]

lemma Lacks.clear (h : d.Lacks name) (other : Bytes) : (d.clear other).Lacks name := by
  intro f hf
  rw [frames_clear] at hf
  obtain ⟨g, hg, rfl⟩ := List.mem_map.1 hf
  rw [Frame.find?_erase, h g hg, ite_self]

lemma Lacks.push (h : d.Lacks name) : d.push.Lacks name := by
  intro f hf
  rcases List.mem_cons.1 hf with rfl | hf
  · rfl
  · exact h f hf

lemma Lacks.pop (h : d.Lacks name) : d.pop.Lacks name := by
  obtain ⟨f, fs⟩ := d
  cases fs with
  | nil => exact h
  | cons g gs => exact fun x hx => h x (List.mem_cons_of_mem f hx)

lemma lacks_put_iff {x : Definition} : (d.put x).Lacks name ↔ d.Lacks name ∧ x.name ≠ name := by
  have hframes : (d.put x).Lacks name ↔
      Frame.find? (Frame.put d.inner x) name = none ∧ ∀ f ∈ d.outer, Frame.find? f name = none :=
    List.forall_mem_cons
  have hd : d.Lacks name ↔
      Frame.find? d.inner name = none ∧ ∀ f ∈ d.outer, Frame.find? f name = none :=
    List.forall_mem_cons
  rw [hframes, hd]
  by_cases hx : x.name = name
  · simp [Frame.put, Frame.find?, hx]
  · simp [Frame.find?_put _ _ hx, hx]

lemma lacks_install_iff {xs : List Definition} :
    (d.install xs).Lacks name ↔ d.Lacks name ∧ ∀ x ∈ xs, x.name ≠ name := by
  unfold Definitions.install
  induction xs generalizing d with
  | nil => simp
  | cons x xs ih => rw [List.foldl_cons, ih, lacks_put_iff, List.forall_mem_cons, and_assoc]

lemma Lacks.install (h : d.Lacks name) {xs : List Definition} (hxs : ∀ x ∈ xs, x.name ≠ name) :
    (d.install xs).Lacks name :=
  lacks_install_iff.2 ⟨h, hxs⟩

lemma lookup_clear_of_ne {other : Bytes} (h : other ≠ name) :
    (d.clear name).lookup fallback other = d.lookup fallback other := by
  simp [lookup, List.findSome?_map, Function.comp_def, Frame.find?_erase, h]

lemma pop_clear (d : Definitions) (name : Bytes) : (d.clear name).pop = d.pop.clear name := by
  obtain ⟨f, fs⟩ := d
  cases fs <;> rfl

/-! ### Ending several scopes -/

lemma Lacks.iterate_pop (h : d.Lacks name) (n : Nat) :
    (Definitions.pop^[n] d).Lacks name := by
  induction n generalizing d with
  | zero => exact h
  | succ n ih => exact ih h.pop

lemma iterate_pop_clear (d : Definitions) (name : Bytes) (n : Nat) :
    pop^[n] (d.clear name) = (pop^[n] d).clear name := by
  induction n generalizing d with
  | zero => rfl
  | succ n ih => rw [Function.iterate_succ_apply, pop_clear, ih, Function.iterate_succ_apply]

end Definitions

/-! ### Scopes inside scopes -/

/-- What is done to a stack of scopes. -/
inductive ScopeOp where
  | push
  | put (x : Definition)
  | install (xs : List Definition)
  | clear (name : Bytes)
  | pop
  deriving DecidableEq, Repr

namespace ScopeOp

/-- The scopes after an operation. -/
def apply (d : Definitions) : ScopeOp → Definitions
  | push => d.push
  | put x => d.put x
  | install xs => d.install xs
  | clear name => d.clear name
  | pop => d.pop

/-- The scopes after operations in order. -/
def run (ops : List ScopeOp) (d : Definitions) : Definitions := ops.foldl apply d

/-- The operations end `n` scopes that were begun before and those that they begin. -/
def closes : Nat → List ScopeOp → Bool
  | n, [] => n == 0
  | n, push :: ops => closes (n + 1) ops
  | 0, pop :: _ => false
  | n + 1, pop :: ops => closes n ops
  | n, _ :: ops => closes n ops

/-- The operations end the scopes that they begin and no others. -/
def Balanced (ops : List ScopeOp) : Prop := closes 0 ops = true

instance (ops : List ScopeOp) : Decidable (Balanced ops) := inferInstanceAs (Decidable (_ = true))

/-- A scope without the definitions of the names that are cleared. -/
def spared (ops : List ScopeOp) (f : Frame) : Frame :=
  List.filter (fun d => decide (clear d.name ∉ ops)) f

lemma find?_spared (ops : List ScopeOp) (f : Frame) (name : Bytes) :
    Frame.find? (spared ops f) name = if clear name ∈ ops then none else Frame.find? f name := by
  rw [spared, Frame.find?_filter f name fun n => decide (clear n ∉ ops)]
  by_cases h : clear name ∈ ops <;> simp [h]

lemma spared_nil : spared [] = id := by
  funext f
  simp [spared]

lemma spared_cons {op : ScopeOp} (h : ∀ name, op ≠ clear name) (ops : List ScopeOp) :
    spared (op :: ops) = spared ops := by
  funext f
  simp [spared, (h _).symm]

lemma spared_clear (name : Bytes) (ops : List ScopeOp) :
    spared (clear name :: ops) = spared ops ∘ fun f => Frame.erase f name := by
  funext f
  simp only [spared, Frame.erase, Function.comp_apply, List.filter_filter]
  refine List.filter_congr fun d _ => ?_
  by_cases h : d.name = name <;> simp [h]

@[simp] lemma closes_put (n : Nat) (x : Definition) (ops : List ScopeOp) :
    closes n (put x :: ops) = closes n ops := by
  cases n <;> rfl

@[simp] lemma closes_install (n : Nat) (xs : List Definition) (ops : List ScopeOp) :
    closes n (install xs :: ops) = closes n ops := by
  cases n <;> rfl

@[simp] lemma closes_clear (n : Nat) (name : Bytes) (ops : List ScopeOp) :
    closes n (clear name :: ops) = closes n ops := by
  cases n <;> rfl

/-- Operations that end the scopes on top, but for the outermost of them, leave below it the
scopes that were there without the names that they clear. -/
lemma frames_run {n : Nat} {ops : List ScopeOp} (h : closes n ops = true) (f : Frame)
    (top : List Frame) (htop : top.length = n) (base : List Frame) :
    ∃ g, (run ops ⟨f, top ++ base⟩).frames = g :: base.map (spared ops) := by
  -- the induction is on the operations; `top` are the scopes that they still have to end
  induction ops generalizing n f top base with
  | nil =>
    obtain rfl : n = 0 := by simpa [closes] using h
    obtain rfl := List.eq_nil_of_length_eq_zero htop
    exact ⟨f, by rw [spared_nil, List.map_id]; rfl⟩
  | cons op ops ih =>
    cases op with
    | push =>
      rw [spared_cons (by simp)]
      exact ih h [] (f :: top) (by rw [List.length_cons, htop]) base
    | put x =>
      rw [spared_cons (by simp)]
      exact ih (by simpa using h) (Frame.put f x) top htop base
    | install xs =>
      rw [spared_cons (by simp)]
      have hinstall : (Definitions.mk f (top ++ base)).install xs =
          ⟨((Definitions.mk f (top ++ base)).install xs).inner, top ++ base⟩ := by
        rw [Definitions.mk.injEq]
        exact ⟨rfl, Definitions.outer_install _ xs⟩
      rw [run, List.foldl_cons, apply, hinstall]
      exact ih (by simpa using h) _ top htop base
    | clear name =>
      -- the name goes from every scope, so that `base` changes as well
      have herased := ih (by simpa using h) (Frame.erase f name)
        (top.map fun f => Frame.erase f name) (by rw [List.length_map, htop])
        (base.map fun f => Frame.erase f name)
      rw [List.map_map, ← spared_clear, ← List.map_append] at herased
      exact herased
    | pop =>
      cases n with
      | zero => cases h
      | succ n =>
        obtain ⟨g, top, rfl⟩ := List.exists_cons_of_length_eq_add_one htop
        rw [spared_cons (by simp)]
        exact ih h g top (by simpa using htop) base

/-- What happens between the beginning of a scope and its end leaves the scopes around it
without the names that it clears. -/
lemma frames_enclosed {ops : List ScopeOp} (h : Balanced ops) (d : Definitions) :
    (run (push :: ops ++ [pop]) d).frames = d.frames.map (spared ops) := by
  obtain ⟨g, hg⟩ := frames_run h [] [] rfl d.frames
  rw [List.cons_append, run, List.foldl_cons, List.foldl_append]
  exact Definitions.frames_pop hg

/-- Scopes are properly nested. -/
lemma lookup_enclosed {ops : List ScopeOp} (h : Balanced ops) (d : Definitions)
    (fallback : Bytes → Option Bytes) (name : Bytes) :
    (run (push :: ops ++ [pop]) d).lookup fallback name =
      if clear name ∈ ops then fallback name else d.lookup fallback name := by
  by_cases hclear : clear name ∈ ops
  · have hlacks : (run (push :: ops ++ [pop]) d).Lacks name := by
      intro f hf
      rw [frames_enclosed h] at hf
      obtain ⟨g, -, rfl⟩ := List.mem_map.1 hf
      rw [find?_spared, if_pos hclear]
    rw [if_pos hclear, hlacks.lookup]
  · rw [Definitions.lookup, frames_enclosed h, List.findSome?_map, if_neg hclear]
    simp [Function.comp_def, find?_spared, hclear, Definitions.lookup]

lemma depth_enclosed {ops : List ScopeOp} (h : Balanced ops) (d : Definitions) :
    (run (push :: ops ++ [pop]) d).depth = d.depth := by
  have hlength := congrArg List.length (frames_enclosed h d)
  simpa [Definitions.frames, Definitions.depth] using hlength

end ScopeOp

end ConsoleShell
