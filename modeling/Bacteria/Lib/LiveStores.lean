/-
**Stores that are still there.**

A store goes to an index and replaces what was stored there before.

* `live` — of a list of stores, oldest first, those that no later one replaced.
* `pairwise_live_append` — a relation between the older and the newer ones.
* `latest` — the last live store with a property; `of_latest`, `latest_eq_none_iff`.
-/

import Mathlib.Data.List.Basic
import Mathlib.Data.List.Induction

namespace Stores

section Stores

variable {α ι : Type} [DecidableEq ι] (index : α → ι)

/-- The stores that are still there. -/
def live (stores : List α) : List α :=
  stores.foldl (fun kept store => (kept.filter fun s => index s ≠ index store) ++ [store]) []

/-- The last live store with a property. -/
def latest (p : α → Bool) (stores : List α) : Option α := ((live index stores).filter p).getLast?

variable {index} {stores : List α} {store s : α}

theorem live_append_singleton :
    live index (stores ++ [store]) =
      ((live index stores).filter fun s => index s ≠ index store) ++ [store] := by
  rw [live, List.foldl_append, ← live]
  rfl

theorem mem_live_append_singleton :
    s ∈ live index (stores ++ [store]) ↔
      (s ∈ live index stores ∧ index s ≠ index store) ∨ s = store := by
  rw [live_append_singleton, List.mem_append, List.mem_filter, List.mem_singleton,
    decide_eq_true_eq]

/-- **One more store**: the relation has to hold between it and those that stay. -/
theorem pairwise_live_append {rel : α → α → Prop} (ordered : (live index stores).Pairwise rel)
    (last : ∀ s ∈ live index stores, index s ≠ index store → rel s store) :
    (live index (stores ++ [store])).Pairwise rel := by
  rw [live_append_singleton, List.pairwise_append]
  refine ⟨ordered.filter _, List.pairwise_singleton _ _, fun s member other same => ?_⟩
  obtain ⟨there, different⟩ := List.mem_filter.mp member
  rw [List.mem_singleton.mp same]
  exact last s there (of_decide_eq_true different)

variable {p : α → Bool}

/-- **The latest store**: it is there, has the property, and comes after all others that have it. -/
theorem of_latest {rel : α → α → Prop} (ordered : (live index stores).Pairwise rel)
    (found : latest index p stores = some s) :
    s ∈ live index stores ∧ p s = true ∧
      ∀ other ∈ live index stores, p other = true → other = s ∨ rel other s := by
  obtain ⟨before, shape⟩ := List.getLast?_eq_some_iff.mp found
  have member : s ∈ (live index stores).filter p := by
    rw [shape]
    exact List.mem_append_right _ (List.mem_singleton_self s)
  obtain ⟨there, has⟩ := List.mem_filter.mp member
  refine ⟨there, has, fun other otherThere otherHas => ?_⟩
  have otherMember := List.mem_filter.mpr ⟨otherThere, otherHas⟩
  have sorted := ordered.filter p
  rw [shape] at otherMember sorted
  rcases List.mem_append.mp otherMember with earlier | last
  · exact Or.inr ((List.pairwise_append.mp sorted).2.2 other earlier s (List.mem_singleton_self s))
  · exact Or.inl (List.mem_singleton.mp last)

theorem latest_eq_none_iff :
    latest index p stores = none ↔ ∀ s ∈ live index stores, ¬ p s = true := by
  rw [latest, List.getLast?_eq_none_iff, List.filter_eq_nil_iff]

end Stores

end Stores
