/-
**Arrays of pointers on the heap.**

A `PtrArray` is one allocation that is used as an array of pointers: its size in bytes, its cells
(`none` for a slot that was never set, `some none` for NULL) and the log of the stores made in it. As
with a `Block`, a store takes effect wherever it falls; the log says whether it fell inside.

* `Allocator` — what `malloc` grants; `given` is the number of bytes behind the pointer it returns.
* `entries` — the number of whole pointers there is room for; `InBounds` — every store was below it.
* `Filled array items` — the first cells point to these items; `Filled.store` is the rule of a loop
  that fills an array from its start, `inBounds_store` says what one store needs.
* `upToNull` — what a loop reads that ends at the first NULL; `upToNull_of_filled` computes it.
-/

import Mathlib.Algebra.Order.Ring.Int
import Mathlib.Data.List.Basic
import Mathlib.Order.Basic

namespace Clib

/-- `sizeof(char *)`. -/
def pointerSize : Nat := 8

/-- What `malloc` does in a run: the sizes it grants, none beyond `PTRDIFF_MAX`. For the others it
returns NULL. -/
structure Allocator where
  grants : Nat → Bool
  bounded : ∀ {bytes : Nat}, grants bytes → bytes < 2 ^ 63

namespace Allocator

/-- The bytes behind the pointer that `malloc(bytes)` returns; behind NULL there are none. -/
def given (alloc : Allocator) (bytes : Nat) : Nat := if alloc.grants bytes then bytes else 0

/-- An allocator that refuses what no block can have, and nothing else. -/
def generous : Allocator := ⟨fun bytes => decide (bytes < 2 ^ 63), of_decide_eq_true⟩

end Allocator

/-- One store: its slot, and the number of entries at that time. -/
structure Store where
  slot : Nat
  entries : Nat
deriving DecidableEq

/-- One allocation of pointers to `α`. -/
structure PtrArray (α : Type) where
  bytes : Nat
  cells : Nat → Option (Option α)
  stores : List Store

namespace PtrArray

variable {α : Type}

/-- The number of whole pointers in the block. -/
def entries (array : PtrArray α) : Nat := array.bytes / pointerSize

/-- `malloc`: no slot is set. -/
def malloc (bytes : Nat) : PtrArray α := ⟨bytes, fun _ => none, []⟩

/-- `realloc`: the slots below the new size are kept. -/
def realloc (array : PtrArray α) (bytes : Nat) : PtrArray α :=
  { array with
    bytes
    cells := fun slot => if slot < bytes / pointerSize then array.cells slot else none }

/-- `array[slot] = pointer`; `none` is NULL. -/
def store (array : PtrArray α) (slot : Nat) (pointer : Option α) : PtrArray α :=
  { array with
    cells := fun other => if other = slot then some pointer else array.cells other
    stores := array.stores ++ [⟨slot, array.entries⟩] }

/-- Every store fell into the array as it was then. -/
def InBounds (array : PtrArray α) : Prop := ∀ s ∈ array.stores, s.slot < s.entries

instance (array : PtrArray α) : Decidable array.InBounds :=
  inferInstanceAs (Decidable (∀ s ∈ array.stores, s.slot < s.entries))

/-- How far slots were stored. -/
def reach (array : PtrArray α) : Nat :=
  array.stores.foldl (fun reach s => max reach (s.slot + 1)) 0

/-- The pointers from `slot` on and before the first NULL, looked for in `fuel` cells; `none` when an
unset slot comes first. -/
def readFrom (array : PtrArray α) (slot : Nat) : Nat → Option (List α)
  | 0 => none
  | fuel + 1 =>
    match array.cells slot with
    | none => none
    | some none => some []
    | some (some item) => (array.readFrom (slot + 1) fuel).map (item :: ·)

/-- The pointers before the first NULL. -/
def upToNull (array : PtrArray α) : Option (List α) := array.readFrom 0 array.reach

/-- The first slots point to `items`. -/
def Filled (array : PtrArray α) (items : List α) : Prop :=
  ∀ slot < items.length, array.cells slot = items[slot]?.map some

@[simp] theorem malloc_entries (bytes : Nat) :
    (malloc bytes : PtrArray α).entries = bytes / pointerSize := rfl

theorem store_cells_self (array : PtrArray α) (slot : Nat) (pointer : Option α) :
    (array.store slot pointer).cells slot = some pointer := if_pos rfl

theorem store_cells_of_ne (array : PtrArray α) {slot other : Nat} (different : other ≠ slot)
    (pointer : Option α) : (array.store slot pointer).cells other = array.cells other :=
  if_neg different

/-- **A store keeps an array in bounds exactly if it fits.** -/
theorem inBounds_store {array : PtrArray α} {slot : Nat} {pointer : Option α} :
    (array.store slot pointer).InBounds ↔ array.InBounds ∧ slot < array.entries := by
  simp only [InBounds, store, List.mem_append, List.mem_singleton, or_imp, forall_and, forall_eq]

theorem filled_nil (array : PtrArray α) : array.Filled [] := by
  intro slot bound
  cases bound

/-- **Storing right behind what an array is filled with.** -/
theorem Filled.store {array : PtrArray α} {items : List α} (filled : array.Filled items)
    {slot : Nat} (behind : slot = items.length) (item : α) :
    (array.store slot (some item)).Filled (items ++ [item]) := by
  intro other bound
  rw [List.length_append, List.length_singleton] at bound
  by_cases last : other = items.length
  · rw [last, ← behind, store_cells_self, behind, List.getElem?_concat_length, Option.map_some]
  · rw [store_cells_of_ne array (by omega), filled other (by omega),
      List.getElem?_append_left (by omega)]

theorem Filled.realloc {array : PtrArray α} {items : List α} (filled : array.Filled items)
    {bytes : Nat} (fits : items.length ≤ bytes / pointerSize) :
    (array.realloc bytes).Filled items := by
  intro slot bound
  have inside : slot < bytes / pointerSize := by omega
  simp only [PtrArray.realloc, if_pos inside]
  exact filled slot bound

/-- What holds of every item holds of every filled slot, and the other way round. -/
theorem Filled.forall_slots {array : PtrArray α} {items : List α} (filled : array.Filled items)
    (p : α → Prop) :
    (∀ slot < items.length, ∃ item, array.cells slot = some (some item) ∧ p item) ↔
      ∀ item ∈ items, p item := by
  constructor
  · intro slots item member
    obtain ⟨slot, bound, rfl⟩ := List.getElem_of_mem member
    obtain ⟨found, cell, holds⟩ := slots slot bound
    rw [filled slot bound, List.getElem?_eq_getElem bound, Option.map_some] at cell
    rwa [Option.some.inj (Option.some.inj cell)]
  · intro all slot bound
    refine ⟨items[slot], ?_, all _ (List.getElem_mem bound)⟩
    rw [filled slot bound, List.getElem?_eq_getElem bound, Option.map_some]

theorem readFrom_of_filled {array : PtrArray α} {items : List α} {start fuel : Nat}
    (filled : ∀ slot < items.length, array.cells (start + slot) = items[slot]?.map some)
    (ended : array.cells (start + items.length) = some none) (enough : items.length < fuel) :
    array.readFrom start fuel = some items := by
  induction items generalizing start fuel with
  | nil =>
    obtain ⟨fuel, rfl⟩ := Nat.exists_eq_succ_of_ne_zero (Nat.ne_of_gt enough)
    rw [List.length_nil, Nat.add_zero] at ended
    simp only [readFrom, ended]
  | cons item items ih =>
    obtain ⟨fuel, rfl⟩ := Nat.exists_eq_succ_of_ne_zero (Nat.ne_of_gt (Nat.zero_lt_of_lt enough))
    have here : array.cells start = some (some item) := by
      simpa using filled 0 (Nat.succ_pos _)
    have rest : ∀ slot < items.length, array.cells (start + 1 + slot) = items[slot]?.map some := by
      intro slot bound
      have shifted := filled (slot + 1) (Nat.succ_lt_succ bound)
      rwa [List.getElem?_cons_succ, ← Nat.add_assoc, Nat.add_right_comm] at shifted
    rw [List.length_cons] at enough ended
    rw [← Nat.add_assoc, Nat.add_right_comm] at ended
    have tail := ih rest ended (Nat.lt_of_succ_lt_succ enough)
    simp only [readFrom, here, tail, Option.map_some]

theorem lt_reach_store (array : PtrArray α) (slot : Nat) (pointer : Option α) :
    slot < (array.store slot pointer).reach := by
  simp only [reach, store, List.foldl_append, List.foldl_cons, List.foldl_nil]
  omega

/-- **An array closed with NULL is read up to there.** -/
theorem upToNull_of_filled {array : PtrArray α} {items : List α} (filled : array.Filled items)
    {slot : Nat} (behind : slot = items.length) :
    (array.store slot none).upToNull = some items := by
  refine readFrom_of_filled (fun other bound => ?_) ?_ ?_
  · rw [Nat.zero_add, store_cells_of_ne array (by omega)]
    exact filled other bound
  · rw [Nat.zero_add, ← behind, store_cells_self]
  · rw [← behind]
    exact lt_reach_store array slot none

end PtrArray

end Clib
