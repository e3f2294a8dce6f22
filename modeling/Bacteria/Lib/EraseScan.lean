/-
**Erase and restart.**

A loop that scans a container for the first element to drop, erases it and starts again until a
scan finds none. It ends, since every turn but the last makes the container shorter, and what is
left is the filter of the container (`eraseScan_eq_filter`): nothing else is dropped, and the order
is kept.

* `eraseFirst`, `eraseTurn` — the scan, and one turn of the loop; `returns_eraseTurn_iff` — how the
  loop ends.
-/

import Bacteria.Lib.Loop
import Mathlib.Data.List.Basic

namespace EraseScan

section EraseScan

variable {α : Type} (drop : α → Bool)

/-- `do { erase the first element to drop, if any } while (one was erased)`. -/
def eraseScan (items : List α) : List α :=
  if items.any drop then eraseScan (items.eraseP drop) else items
termination_by items.length
decreasing_by
  rename_i found
  obtain ⟨item, member, dropped⟩ := List.any_eq_true.mp found
  have positive : 0 < items.length := List.length_pos_of_mem member
  rw [List.length_eraseP_of_mem member dropped]
  omega

/-- Erasing the first element to drop does not change what is kept. -/
theorem filter_eraseP (items : List α) :
    (items.eraseP drop).filter (fun item => !drop item) = items.filter fun item => !drop item := by
  induction items with
  | nil => rfl
  | cons item items ih =>
    by_cases dropped : drop item = true
    · rw [List.eraseP_cons_of_pos dropped, List.filter_cons_of_neg (by simp [dropped])]
    · have kept : (!drop item) = true := by simpa using dropped
      rw [List.eraseP_cons_of_neg dropped, List.filter_cons, List.filter_cons, if_pos kept,
        if_pos kept, ih]

/-- **The loop leaves exactly the elements to keep, in their order.** -/
theorem eraseScan_eq_filter (items : List α) :
    eraseScan drop items = items.filter fun item => !drop item := by
  induction items using eraseScan.induct drop with
  | case1 items found ih => rw [eraseScan, if_pos found, ih, filter_eraseP]
  | case2 items none =>
    rw [eraseScan, if_neg none, List.filter_eq_self.mpr]
    intro item member
    by_contra dropped
    exact none (List.any_eq_true.mpr ⟨item, member, by simpa using dropped⟩)

/-! ### Turn by turn -/

/-- The scan: the container without the first element to drop, `none` when it gets to the end. -/
def eraseFirst : List α → Option (List α)
  | [] => none
  | item :: items => if drop item then some items else (eraseFirst items).map (item :: ·)

/-- One turn: again after an element was erased. -/
def eraseTurn (items : List α) : List α ⊕ List α :=
  match eraseFirst drop items with
  | some left => .inl left
  | none => .inr items

theorem eraseFirst_eq_none_iff {items : List α} :
    eraseFirst drop items = none ↔ ∀ item ∈ items, drop item = false := by
  induction items with
  | nil => exact iff_of_true rfl fun _ member => absurd member List.not_mem_nil
  | cons item items ih =>
    rw [eraseFirst, List.forall_mem_cons]
    by_cases dropped : drop item = true
    · rw [if_pos dropped, dropped]
      exact iff_of_false (Option.some_ne_none _) fun both => Bool.false_ne_true both.1.symm
    · rw [if_neg dropped, Option.map_eq_none_iff, ih]
      exact (and_iff_right (Bool.eq_false_iff.mpr dropped)).symm

/-- **What one scan erases**: one element to drop, and nothing else. -/
theorem eraseFirst_spec {items left : List α} (erased : eraseFirst drop items = some left) :
    ∃ before item after, items = before ++ item :: after ∧ left = before ++ after ∧
      drop item = true := by
  induction items generalizing left with
  | nil => cases erased
  | cons item items ih =>
    rw [eraseFirst] at erased
    by_cases dropped : drop item = true
    · rw [if_pos dropped] at erased
      exact ⟨[], item, items, rfl, (Option.some.inj erased).symm, dropped⟩
    · rw [if_neg dropped] at erased
      obtain ⟨rest, later, rfl⟩ := Option.map_eq_some_iff.mp erased
      obtain ⟨before, other, after, rfl, rfl, otherDropped⟩ := ih later
      exact ⟨item :: before, other, after, rfl, rfl, otherDropped⟩

variable {drop}

/-- A scan that erases does not change what is kept, and makes the container shorter. -/
theorem filter_of_eraseFirst {items left : List α} (erased : eraseFirst drop items = some left) :
    left.filter (fun item => !drop item) = items.filter (fun item => !drop item) ∧
      left.length < items.length := by
  obtain ⟨before, item, after, rfl, rfl, dropped⟩ := eraseFirst_spec drop erased
  have gone : ¬ (!drop item) = true := by
    rw [dropped]
    exact Bool.false_ne_true
  constructor
  · rw [List.filter_append, List.filter_append, List.filter_cons, if_neg gone]
  · rw [List.length_append, List.length_append, List.length_cons]
    exact Nat.lt_succ_self _

/-- **The loop ends, and only with the elements to keep.** -/
theorem returns_eraseTurn_iff {items result : List α} :
    Loops.Returns (eraseTurn drop) items result ↔ result = items.filter fun item => !drop item := by
  -- the measure is the length of the container
  induction size : items.length using Nat.strongRecOn generalizing items with
  | ind size ih =>
    cases erased : eraseFirst drop items with
    | some left =>
      obtain ⟨kept, shorter⟩ := filter_of_eraseFirst erased
      have goes : eraseTurn drop items = .inl left := by rw [eraseTurn, erased]
      rw [Loops.returns_iff_of_next goes, ih left.length (size ▸ shorter) rfl, kept]
    | none =>
      have done : eraseTurn drop items = .inr items := by rw [eraseTurn, erased]
      have all : items.filter (fun item => !drop item) = items :=
        List.filter_eq_self.mpr fun item member => by
          rw [(eraseFirst_eq_none_iff drop).mp erased item member]
          rfl
      rw [Loops.returns_iff_of_done done, all]

/-- **Once more** changes nothing. -/
theorem returns_eraseTurn_filter_iff {items result : List α} :
    Loops.Returns (eraseTurn drop) (items.filter fun item => !drop item) result ↔
      result = items.filter fun item => !drop item := by
  rw [returns_eraseTurn_iff, List.filter_filter]
  simp only [Bool.and_self]

end EraseScan

end EraseScan
