/-
**Tables and `lua_next`.**

* `Tables` — the tables of a state: the entries of each, in the order `lua_next` visits them.
* `position entries key` — where a traversal stands that was given this key last; `none` for a key the
  table does not have.
* `next` — `lua_next(L, -2)`: the key is taken from the top of the stack, and the next pair pushed.
* `toStringAt` — `lua_tostring`, which leaves the string in the place of a number.
* `Traversable` — a table whose keys are strings and numbers, each once: `position_entry`,
  `position_eq_some_iff` — the key of an entry leads right behind this entry, and no other key does.
-/

import Bacteria.Lib.Lua
import Mathlib.Data.List.Nodup

namespace Lua

open Clib

/-- A key and its value. -/
abbrev Entry (ν : Type) := Value ν × Value ν

/-- The tables among the objects: the entries of each in the order of a traversal. -/
abbrev Tables (ν : Type) := Nat → Option (List (Entry ν))

section Tables

variable {ν : Type}

/-- The entries of a table, `none` for any other value. -/
def Value.entries? (tables : Tables ν) : Value ν → Option (List (Entry ν))
  | .object identity => tables identity
  | _ => none

/-- `lua_istable`. -/
def Value.isTable (tables : Tables ν) (value : Value ν) : Bool := (value.entries? tables).isSome

/-- `lua_isstring`: strings, and numbers, which convert to strings. -/
def Value.isString (num : Numerals ν) (value : Value ν) : Bool := (value.toLString num).isSome

/-- Whatever is a number for `lua_isnumber` is a string for `lua_isstring`. -/
theorem isString_of_toNumber (num : Numerals ν) (value : Value ν)
    (number : (value.toNumber num).isSome) : value.isString num := by
  cases value with
  | number n => rfl
  | string text => rfl
  | nil => cases number
  | boolean b => cases number
  | object identity => cases number

/-- `lua_tostring(L, index)` of the value `depth` below the top: the C string behind its result, and
the stack with the string in the place of the value; `none` for a null result. -/
def toStringAt (num : Numerals ν) (stack : Stack ν) (depth : Nat) : Option (CString × Stack ν) :=
  ((stack.getD depth .nil).toLString num).map fun text =>
    (cstr text, stack.set depth (.string text))

variable [DecidableEq ν]

/-- How many entries a traversal has passed that was given this key last. -/
def position (entries : List (Entry ν)) (key : Value ν) : Option Nat :=
  if key = .nil then some 0
  else (entries.findIdx? fun entry => entry.1 = key).map (· + 1)

/-- What `lua_next` leads to: a pair, the end of the table, the error `invalid key to 'next'`, or a
call without a table at the index. -/
inductive Next (ν : Type) where
  | pair (entry : Entry ν) (stack : Stack ν)
  | finished (stack : Stack ν)
  | invalidKey
  | noTable

/-- `lua_next(L, -2)`. -/
def next (tables : Tables ν) : Stack ν → Next ν
  | key :: table :: rest =>
    match table.entries? tables with
    | none => .noTable
    | some entries =>
      match position entries key with
      | none => .invalidKey
      | some passed =>
        match entries[passed]? with
        | none => .finished (table :: rest)
        | some entry => .pair entry (entry.2 :: entry.1 :: table :: rest)
  | _ => .noTable

end Tables

/-- A key of a table that scripts make: a string or a number. -/
def Value.isPlainKey {ν : Type} : Value ν → Bool
  | .string _ => true
  | .number _ => true
  | _ => false

/-- A table whose keys are strings and numbers. -/
structure Traversable (ν : Type) (tables : Tables ν) where
  identity : Nat
  entries : List (Entry ν)
  known : tables identity = some entries
  distinct : (entries.map Prod.fst).Nodup
  plain : ∀ entry ∈ entries, entry.1.isPlainKey = true

/-- The tables of a state with one table. -/
def oneTable {ν : Type} (entries : List (Entry ν)) : Tables ν :=
  fun identity => if identity = 0 then some entries else none

namespace Traversable

/-- The only table of a state. -/
def only {ν : Type} (entries : List (Entry ν)) (distinct : (entries.map Prod.fst).Nodup)
    (plain : ∀ entry ∈ entries, entry.1.isPlainKey = true) : Traversable ν (oneTable entries) where
  identity := 0
  entries := entries
  known := rfl
  distinct := distinct
  plain := plain

section Positions

variable {ν : Type} {tables : Tables ν} (table : Traversable ν tables)

/-- The value of the table. -/
def value : Value ν := .object table.identity

theorem entries?_value : table.value.entries? tables = some table.entries := table.known

/-- No two entries are equal. -/
theorem nodup : table.entries.Nodup := List.Nodup.of_map Prod.fst table.distinct

/-- A key of the table is neither nil nor a table. -/
theorem key_ne_nil {entry : Entry ν} (member : entry ∈ table.entries) : entry.1 ≠ .nil := by
  intro nil
  have plain := table.plain entry member
  rw [nil] at plain
  cases plain

theorem key_entries? {entry : Entry ν} (member : entry ∈ table.entries) :
    entry.1.entries? tables = none := by
  have plain := table.plain entry member
  cases key : entry.1 with
  | object identity =>
    rw [key] at plain
    cases plain
  | _ => rfl

variable [DecidableEq ν]

/-- **The key of an entry leads right behind it, and no other key does.** -/
theorem position_eq_some_iff {index : Nat} (bound : index < table.entries.length)
    (key : Value ν) :
    position table.entries key = some (index + 1) ↔ key = (table.entries[index]).1 := by
  have keys : ∀ (i : Nat) (inside : i < table.entries.length),
      (table.entries.map Prod.fst)[i]? = some (table.entries[i]).1 := by
    intro i inside
    rw [List.getElem?_map, List.getElem?_eq_getElem inside, Option.map_some]
  constructor
  · intro found
    rw [position] at found
    split at found
    · cases Option.some.inj found
    · obtain ⟨passed, here, same⟩ := Option.map_eq_some_iff.mp found
      obtain rfl : passed = index := Nat.succ.inj same
      obtain ⟨_, matches_, _⟩ := List.findIdx?_eq_some_iff_getElem.mp here
      exact (of_decide_eq_true matches_).symm
  · rintro rfl
    have member := List.getElem_mem bound
    have found : table.entries.findIdx? (fun entry => entry.1 = (table.entries[index]).1) =
        some index := by
      refine List.findIdx?_eq_some_iff_getElem.mpr ⟨bound, by simp, fun i before same => ?_⟩
      have inside : i < table.entries.length := lt_trans before bound
      have equal : (table.entries.map Prod.fst)[i]? = (table.entries.map Prod.fst)[index]? := by
        rw [keys i inside, keys index bound, of_decide_eq_true same]
      have mapped : i < (table.entries.map Prod.fst).length := by rwa [List.length_map]
      exact absurd ((List.getElem?_inj mapped table.distinct).mp equal) (Nat.ne_of_lt before)
    rw [position, if_neg (table.key_ne_nil member), found, Option.map_some]

/-- A position is within the table. -/
theorem position_le {key : Value ν} {passed : Nat}
    (here : position table.entries key = some passed) : passed ≤ table.entries.length := by
  rw [position] at here
  split at here
  · rw [← Option.some.inj here]
    exact Nat.zero_le _
  · obtain ⟨index, found, rfl⟩ := Option.map_eq_some_iff.mp here
    exact (List.findIdx?_eq_some_iff_getElem.mp found).1

/-- **`lua_next` on the table**, by the position of the key. -/
theorem next_eq (key : Value ν) (rest : Stack ν) :
    next tables (key :: table.value :: rest) =
      match position table.entries key with
      | none => .invalidKey
      | some passed =>
        match table.entries[passed]? with
        | none => .finished (table.value :: rest)
        | some entry => .pair entry (entry.2 :: entry.1 :: table.value :: rest) := by
  simp only [next, table.entries?_value]

end Positions

end Traversable

end Lua
