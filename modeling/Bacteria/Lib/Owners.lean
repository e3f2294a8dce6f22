/-
**Objects that free the pointers they hold.**

A destroyed object stays in the list as `none`. `pointers` are what an object holds.

* `holders` — how often the objects hold a pointer; `claims` — how often it was freed or is still held.
* `claims_set`, `claims_append` — what a change of one object does to the claims.
* `claims_of_released` — at the end, all claims were met.
-/

import Bacteria.Lib.AllocLog
import Mathlib.Algebra.BigOperators.Group.List.Basic
import Mathlib.Algebra.Order.Ring.Int

namespace Owners

open AllocLog

/-- The log of freeing these pointers. -/
def freeing {β ρ : Type} (freed : List β) : List (Event β ρ) := freed.map .free

theorem readsLive_freeing {β ρ : Type} {owner : ρ → β} (freed : List β) :
    ReadsLive owner (freeing freed : List (Event β ρ)) := by
  intro before place after same
  have member : Event.read place ∈ (freeing freed : List (Event β ρ)) := by
    rw [same]
    exact List.mem_append_right _ List.mem_cons_self
  obtain ⟨pointer, _, other⟩ := List.mem_map.mp member
  cases other

section Owners

variable {α β ρ : Type} [DecidableEq β] [DecidableEq ρ] (pointers : α → List β)

/-- How often this object holds a pointer. -/
def held (object : Option α) (pointer : β) : Nat :=
  match object with
  | none => 0
  | some object => (pointers object).count pointer

/-- How often the objects hold a pointer. -/
def holders (objects : List (Option α)) (pointer : β) : Nat :=
  (objects.map fun object => held pointers object pointer).sum

/-- How often a pointer was freed or is still held, which is freed later. -/
def claims (objects : List (Option α)) (log : List (Event β ρ)) (pointer : β) : Nat :=
  frees log pointer + holders pointers objects pointer

variable {pointers} {objects : List (Option α)} {log : List (Event β ρ)} {pointer : β}

@[simp] theorem frees_freeing (freed : List β) :
    frees (freeing freed : List (Event β ρ)) pointer = freed.count pointer := by
  induction freed with
  | nil => rfl
  | cons first freed ih =>
    rw [frees, freeing] at ih
    rw [frees, freeing, List.map_cons, List.count_cons, ih, List.count_cons]
    simp only [beq_iff_eq, Event.free.injEq]

theorem frees_read (place : ρ) : frees ([.read place] : List (Event β ρ)) pointer = 0 :=
  frees_eq_zero.mpr fun member => by cases List.mem_singleton.mp member

theorem holders_append (objects : List (Option α)) (object : Option α) :
    holders pointers (objects ++ [object]) pointer =
      holders pointers objects pointer + held pointers object pointer := by
  simp [holders]

/-- **One object changes**: it no longer holds what it held. -/
theorem holders_set {n : Nat} {object : Option α} (there : objects[n]? = some object)
    (next : Option α) :
    holders pointers (objects.set n next) pointer + held pointers object pointer =
      holders pointers objects pointer + held pointers next pointer := by
  induction objects generalizing n with
  | nil => cases there
  | cons first objects ih =>
    cases n with
    | zero =>
      obtain rfl := Option.some.inj there
      simp only [holders, List.set_cons_zero, List.map_cons, List.sum_cons]
      omega
    | succ n =>
      have later := ih there
      simp only [holders, List.set_cons_succ, List.map_cons, List.sum_cons] at later ⊢
      omega

theorem held_le_holders {n : Nat} {object : Option α} (there : objects[n]? = some object) :
    held pointers object pointer ≤ holders pointers objects pointer := by
  have change := @holders_set _ _ _ pointers objects pointer n object there none
  have nothing : held pointers none pointer = 0 := rfl
  omega

/-- **An object frees what it holds and gets something new**, or is destroyed. -/
theorem claims_set {n : Nat} {object : α} (there : objects[n]? = some (some object))
    (next : Option α) :
    claims pointers (objects.set n next) (log ++ freeing (pointers object)) pointer =
      claims pointers objects log pointer + held pointers next pointer := by
  have change := @holders_set _ _ _ pointers objects pointer n (some object) there next
  have here : held pointers (some object) pointer = (pointers object).count pointer := rfl
  rw [claims, claims, frees_append, frees_freeing]
  omega

/-- **An object frees what it keeps.** -/
theorem claims_freeing (freed : List β) :
    claims pointers objects (log ++ freeing freed) pointer =
      claims pointers objects log pointer + freed.count pointer := by
  rw [claims, claims, frees_append, frees_freeing]
  omega

/-- **A new object.** -/
theorem claims_append (object : α) :
    claims pointers (objects ++ [some object]) log pointer =
      claims pointers objects log pointer + (pointers object).count pointer := by
  rw [claims, claims, holders_append]
  exact (Nat.add_assoc _ _ _).symm

theorem claims_read (place : ρ) :
    claims pointers objects (log ++ [.read place]) pointer = claims pointers objects log pointer := by
  rw [claims, claims, frees_append, frees_read]
  omega

/-- **When all objects are destroyed**, the claims are what was freed. -/
theorem claims_of_released (released : ∀ object ∈ objects, object = none) :
    claims pointers objects log pointer = frees log pointer := by
  have nothing : holders pointers objects pointer = 0 := by
    refine List.sum_eq_zero fun count member => ?_
    obtain ⟨object, there, rfl⟩ := List.mem_map.mp member
    rw [released object there]
    rfl
  rw [claims, nothing, Nat.add_zero]

/-- **What is held was not freed**, if it is claimed once. -/
theorem frees_of_held {n : Nat} {object : α} (there : objects[n]? = some (some object))
    (holds : pointer ∈ pointers object) (once : claims pointers objects log pointer ≤ 1) :
    frees log pointer = 0 := by
  have atLeast := @held_le_holders _ _ _ pointers objects pointer n (some object) there
  have counted : 0 < held pointers (some object) pointer := List.count_pos_iff.mpr holds
  rw [claims] at once
  omega

end Owners

end Owners
