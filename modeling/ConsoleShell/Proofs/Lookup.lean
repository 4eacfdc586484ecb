/-
Looking up entries by their keys.

Stores, registries, environments and scopes keep entries in lists, drop entries by their keys,
and look for the first entry with a key.  Dropping entries with other keys does not change what
is found, and where no key occurs twice, what is found is the entry with the key.
-/
import Mathlib

namespace ConsoleShell

section

variable {α κ : Type} [BEq κ] [LawfulBEq κ] (key : α → κ)

/-- Looking for a key among entries that are kept or dropped by their keys. -/
lemma find?_filter_key (keep : κ → Bool) (k : κ) (xs : List α) :
    (xs.filter fun x => keep (key x)).find? (fun x => key x == k) =
      if keep k then xs.find? fun x => key x == k else none := by
  rw [List.find?_filter]
  cases hkeep : keep k with
  | true =>
    rw [if_pos rfl]
    congr 1
    funext x
    by_cases hx : key x = k <;> simp [hx, hkeep]
  | false =>
    rw [if_neg Bool.false_ne_true, List.find?_eq_none]
    intro x _ hx
    obtain ⟨hkept, rfl⟩ : keep (key x) = true ∧ key x = k := by simpa using hx
    rw [hkeep] at hkept
    cases hkept

lemma find?_filter_key_of_ne {k k' : κ} (h : k' ≠ k) (xs : List α) :
    (xs.filter fun x => key x != k).find? (fun x => key x == k') =
      xs.find? fun x => key x == k' := by
  rw [find?_filter_key key (· != k), if_pos (bne_iff_ne.2 h)]

variable {key}

lemma find?_key_eq_some_iff {xs : List α} (hnodup : (xs.map key).Nodup) {k : κ} {x : α} :
    (xs.find? fun x => key x == k) = some x ↔ x ∈ xs ∧ key x = k := by
  constructor
  · intro hfind
    exact ⟨List.mem_of_find?_eq_some hfind, by simpa using List.find?_some hfind⟩
  · rintro ⟨hmem, rfl⟩
    cases hfind : xs.find? fun y => key y == key x with
    | none =>
      rw [List.find?_eq_none] at hfind
      exact absurd (beq_self_eq_true (key x)) (hfind x hmem)
    | some y =>
      have hkey : key y = key x := by simpa using List.find?_some hfind
      rw [List.inj_on_of_nodup_map hnodup (List.mem_of_find?_eq_some hfind) hmem hkey]

end

end ConsoleShell
