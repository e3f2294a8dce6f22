/-
**The arrays of `lua_packData` are too small for every table.**

The capacity starts at one entry and grows when the length is above it, which is one turn too late:
the second slot is stored while there is room for one.

* `Short` — the invariant of the arrays: nothing was stored, one entry was and there is no room for
  another, or both arrays were overrun; `Short.grow`, `Short.put`, `Short.close` — it is kept, and the
  closing NULL leaves no other case than the first and the last.
* `overrun_of_packs` — this for every call that ends.
* `StaysInside`, `PacksInside` — every store is inside, and what is freed are the copies;
  `not_packsInside` — for no table of strings, the empty one included: its freeing loop goes through
  two slots, and one was set.
-/

import Bacteria.Net.PackBinding

namespace Bacteria.Net

open Clib Lua Loops

namespace PackArrays

/-- Both arrays were stored to outside of their blocks. -/
def Overrun (arrays : PackArrays) : Prop :=
  ¬ arrays.dataKeys.InBounds ∧ ¬ arrays.dataValues.InBounds

/-- **The invariant**: the arrays before the first copy, the arrays it fills, or an overrun. -/
inductive Short : PackArrays → Prop where
  | fresh : Short start
  | full {arrays : PackArrays} (one : arrays.i = 1) (room : arrays.sTable = 1)
      (keys : arrays.dataKeys.entries = 1) (values : arrays.dataValues.entries = 1) : Short arrays
  | overrun {arrays : PackArrays} (overrun : arrays.Overrun) : Short arrays

section Steps

variable {arrays : PackArrays}

theorem grow_of_le (room : arrays.i ≤ arrays.sTable) : arrays.grow = arrays :=
  if_neg (not_lt.mpr room)

theorem Overrun.grow (overrun : arrays.Overrun) : arrays.grow.Overrun := by
  rw [PackArrays.grow]
  split
  · exact overrun
  · exact overrun

/-- An array with one entry has none at slot one. -/
theorem not_inBounds_second {array : PtrArray CString} (one : array.entries = 1)
    (pointer : Option CString) : ¬ (array.store 1 pointer).InBounds := by
  intro inside
  have below := (PtrArray.inBounds_store.mp inside).2
  omega

/-- What was overrun stays so. -/
theorem not_inBounds_store {array : PtrArray CString} (outside : ¬ array.InBounds) (slot : Nat)
    (pointer : Option CString) : ¬ (array.store slot pointer).InBounds :=
  fun inside => outside (PtrArray.inBounds_store.mp inside).1

theorem Short.grow (short : arrays.Short) : arrays.grow.Short := by
  cases short with
  | fresh =>
    rw [grow_of_le (Nat.zero_le _)]
    exact .fresh
  | full one room keys values =>
    rw [grow_of_le (by omega)]
    exact .full one room keys values
  | overrun overrun => exact .overrun overrun.grow

theorem Short.put (short : arrays.Short) (key value : CString) : (arrays.put key value).Short := by
  cases short with
  | fresh => exact .full rfl rfl (arrayBytes_entries 1) (arrayBytes_entries 1)
  | full one room keys values =>
    refine .overrun ⟨?_, ?_⟩
    · rw [PackArrays.put, one]
      exact not_inBounds_second keys _
    · rw [PackArrays.put, one]
      exact not_inBounds_second values _
  | overrun overrun =>
    exact .overrun ⟨not_inBounds_store overrun.1 _ _, not_inBounds_store overrun.2 _ _⟩

/-- **The closing NULL** is outside, unless nothing was stored. -/
theorem Short.close (short : arrays.Short) : arrays = start ∨ arrays.close.Overrun := by
  cases short with
  | fresh => exact Or.inl rfl
  | full one room keys values =>
    refine Or.inr ⟨?_, ?_⟩
    · rw [PackArrays.close, one]
      exact not_inBounds_second keys _
    · rw [PackArrays.close, one]
      exact not_inBounds_second values _
  | overrun overrun =>
    exact Or.inr ⟨not_inBounds_store overrun.1 _ _, not_inBounds_store overrun.2 _ _⟩

end Steps

/-- **What is asked of the arrays** that hold `n` copies: the stores of the loop and of the NULLs fell
inside, the freeing loop finds every slot set, and the slots in which it finds a pointer are those of
the copies. -/
structure StaysInside (arrays : PackArrays) (n : Nat) : Prop where
  keys : arrays.close.dataKeys.InBounds
  values : arrays.close.dataValues.InBounds
  keysSet : ∀ z ∈ arrays.freed, arrays.close.dataKeys.cells z ≠ none
  valuesSet : ∀ z ∈ arrays.freed, arrays.close.dataValues.cells z ≠ none
  keysFreed :
    ∀ z, (z ∈ arrays.freed ∧ ∃ key, arrays.close.dataKeys.cells z = some (some key)) ↔ z < n
  valuesFreed :
    ∀ z, (z ∈ arrays.freed ∧ ∃ value, arrays.close.dataValues.cells z = some (some value)) ↔ z < n

/-- The arrays that were never stored to are freed up to a slot that is not set. -/
theorem start_not_staysInside (n : Nat) : ¬ start.StaysInside n := by
  intro inside
  exact inside.keysSet 1 (by decide) rfl

end PackArrays

section Capacity

variable {ν : Type} [DecidableEq ν] {num : Numerals ν} {tables : Tables ν}

omit [DecidableEq ν] in
/-- The branches of a turn put one copy at most. -/
theorem packEntry_arrays {s after : Packer ν} (entry : packEntry num tables s = .inl after) :
    after.arrays = s.arrays ∨ ∃ key value, after.arrays = s.arrays.put key value := by
  rw [packEntry] at entry
  split at entry
  · cases keyFound : toStringAt num s.stack 1 with
    | none =>
      simp only [keyFound] at entry
      cases entry
    | some key =>
      simp only [keyFound] at entry
      cases valueFound : toStringAt num key.2 0 with
      | none =>
        simp only [valueFound] at entry
        cases entry
      | some value =>
        simp only [valueFound] at entry
        obtain rfl := Sum.inl.inj entry
        exact Or.inr ⟨key.1, value.1, rfl⟩
  · split at entry
    · obtain rfl := Sum.inl.inj entry
      exact Or.inl rfl
    · obtain rfl := Sum.inl.inj entry
      exact Or.inl rfl

omit [DecidableEq ν] in
/-- The branches of a turn do not end the loop. -/
theorem packEntry_inr {s : Packer ν} {out : PackEnd ν} (entry : packEntry num tables s = .inr out) :
    out = .strayed := by
  rw [packEntry] at entry
  split at entry
  · split at entry
    · exact (Sum.inr.inj entry).symm
    · split at entry
      · exact (Sum.inr.inj entry).symm
      · cases entry
  · split at entry
    · cases entry
    · cases entry

/-- **A turn keeps the arrays short.** -/
theorem packTurn_short {s after : Packer ν} (short : s.arrays.Short)
    (turn : packTurn num tables s = .inl after) : after.arrays.Short := by
  rw [packTurn] at turn
  cases found : next tables s.stack with
  | noTable | invalidKey | finished _ =>
    simp only [found] at turn
    cases turn
  | pair entry stack =>
    simp only [found] at turn
    rcases packEntry_arrays turn with same | ⟨key, value, put⟩
    · rw [same]
      exact short.grow
    · rw [put]
      exact short.grow.put key value

/-- **A call that ends** has stored nothing, or has overrun both arrays. -/
theorem overrun_of_packs {args : Stack ν} {final : Packer ν}
    (packs : Packs num tables args (.ended final)) :
    final.arrays = .start ∨ final.arrays.close.Overrun := by
  obtain ⟨last, short, done⟩ := last_of_returns (fun s => s.arrays.Short)
    (fun _ _ short turn => packTurn_short short turn) PackArrays.Short.fresh packs
  have same : final.arrays = last.arrays := by
    rw [packTurn] at done
    cases found : next tables last.stack with
    | noTable | invalidKey =>
      simp only [found] at done
      cases done
    | finished stack =>
      simp only [found] at done
      obtain rfl := PackEnd.ended.inj (Sum.inr.inj done)
      rfl
    | pair entry stack =>
      simp only [found] at done
      cases packEntry_inr done
  rw [same]
  exact short.close

/-- A string as the key, and a string as the value. -/
def IsText (entry : Entry ν) : Prop := ∃ key value, entry = (.string key, .string value)

/-- The calls with this table keep their arrays in order. -/
def PacksInside (num : Numerals ν) (table : Traversable ν tables) : Prop :=
  ∀ final, Packs num tables [table.value] (.ended final) →
    final.arrays.StaysInside table.entries.length

/-- **No table of strings is packed inside of the arrays.** -/
theorem not_packsInside (num : Numerals ν) (table : Traversable ν tables)
    (texts : ∀ entry ∈ table.entries, IsText entry) : ¬ PacksInside num table := by
  intro inside
  have steady : ∀ entry ∈ table.entries, Steady num tables entry := by
    intro entry member
    obtain ⟨key, value, rfl⟩ := texts entry member
    exact ⟨rfl, fun _ => ⟨key, rfl⟩⟩
  obtain ⟨final, packs, _⟩ := packs_of_steady table steady
  have staysInside := inside final packs
  rcases overrun_of_packs packs with fresh | overrun
  · rw [fresh] at staysInside
    exact PackArrays.start_not_staysInside _ staysInside
  · exact overrun.1 staysInside.keys

end Capacity

/-! ### Two tables -/

/-- `{}`. -/
def emptyTable : Traversable Int (oneTable []) := .only [] (by decide) (by decide)

/-- `{key = "value"}`. -/
def pairEntries : List (Entry Int) := [(.string (ascii "key"), .string (ascii "value"))]

def pairTable : Traversable Int (oneTable pairEntries) := .only pairEntries (by decide) (by decide)

theorem not_packsInside_pairTable : ¬ PacksInside Numerals.integers pairTable :=
  not_packsInside Numerals.integers pairTable fun entry member => by
    rw [List.mem_singleton.mp member]
    exact ⟨_, _, rfl⟩

/-- **The empty table** is freed up to an unset slot; **one pair** has its NULL stored behind an array
for one entry. -/
theorem tables_overrun :
    ¬ PacksInside Numerals.integers emptyTable ∧ ¬ PacksInside Numerals.integers pairTable := by
  refine ⟨fun inside => ?_, fun inside => ?_⟩
  · exact PackArrays.start_not_staysInside _ (inside _ ⟨1, rfl⟩)
  · exact absurd (inside _ ⟨2, rfl⟩).keys (by decide)

end Bacteria.Net
