/-
**Fields of tables, and calls of the API that do not return.**

* `Ending` — how a piece of C code over the API ends: it returns, raises a Lua error, or does what C or
  the API leave undefined. `bind_eq_returned_iff` — a sequence returns when both parts do.
* `Contents` — what the tables of a state hold, without the order of a traversal.
* `settable` — `lua_settable(L, -3)`; `storeTop` — what it is for: a field of the table on top.
* `settable_eq_returned_iff` — it returns exactly if it does this.
-/

import Bacteria.Lib.Lua
import Mathlib.Logic.Function.Basic

namespace Lua

open Clib

section Endings

/-- How a piece of C code ends. -/
inductive Ending (α : Type) where
  | returned (result : α)
  | raised
  | undefined
deriving DecidableEq

/-- One piece of code, then another. -/
def Ending.andThen {α β : Type} (first : Ending α) (next : α → Ending β) : Ending β :=
  match first with
  | .returned result => next result
  | .raised => .raised
  | .undefined => .undefined

instance : Monad Ending where
  pure := Ending.returned
  bind := Ending.andThen

variable {α β : Type}

@[simp] theorem returned_bind (result : α) (next : α → Ending β) :
    (Ending.returned result >>= next) = next result := rfl

@[simp] theorem raised_bind (next : α → Ending β) :
    ((Ending.raised : Ending α) >>= next) = Ending.raised := rfl

@[simp] theorem undefined_bind (next : α → Ending β) :
    ((Ending.undefined : Ending α) >>= next) = Ending.undefined := rfl

/-- **A sequence returns when both parts do.** -/
theorem bind_eq_returned_iff {first : Ending α} {next : α → Ending β} {last : β} :
    (first >>= next) = .returned last ↔
      ∃ result, first = .returned result ∧ next result = .returned last := by
  cases first with
  | returned result => simp
  | raised => simp
  | undefined => simp

end Endings

/-- What the tables of a state hold: the value of a table at each key, nil where there is none. -/
abbrev Contents (ν : Type) := Nat → Option (Value ν → Value ν)

section Fields

variable {ν : Type}

/-- The fields of a table, `none` for any other value. -/
def Value.fields? (tables : Contents ν) : Value ν → Option (Value ν → Value ν)
  | .object identity => tables identity
  | _ => none

/-- What `lua_pushstring` pushes: nil for a null pointer. -/
def charPtrValue : Option CString → Value ν
  | none => .nil
  | some text => .string text.bytes

variable [DecidableEq ν]

/-- The tables after an assignment to a field. -/
def setField (tables : Contents ν) (identity : Nat) (key value : Value ν) : Contents ν :=
  Function.update tables identity ((tables identity).map fun fields =>
    Function.update fields key value)

/-- `lua_settable(L, -3)` without metatables: the key, a number that is no NaN or any other value, and
the value above it are taken off. -/
def settable (tables : Contents ν) : Stack ν → Ending (Contents ν × Stack ν)
  | value :: key :: .object identity :: rest =>
    if (tables identity).isSome ∧ key ≠ .nil then
      .returned (setField tables identity key value, .object identity :: rest)
    else .raised
  | _ :: _ :: _ :: _ => .raised
  | _ => .undefined

/-- One field of the table on top of the stack gets a value, `none` when there is no table. -/
def storeTop (key value : Value ν) : Stack ν × Contents ν → Option (Stack ν × Contents ν)
  | (.object identity :: rest, tables) =>
    if (tables identity).isSome then
      some (.object identity :: rest, setField tables identity key value)
    else none
  | _ => none

theorem storeTop_isSome_iff {key value : Value ν} {stack : Stack ν} {tables : Contents ν} :
    (storeTop key value (stack, tables)).isSome ↔ ((top stack).fields? tables).isSome := by
  cases stack with
  | nil => simp [storeTop, top, Value.fields?]
  | cons first rest => cases first <;> simp [storeTop, top, Value.fields?]

/-- **The stack is as before, and its top is still a table.** -/
theorem storeTop_eq_some {key value : Value ν} {stack stack' : Stack ν}
    {tables tables' : Contents ν}
    (stored : storeTop key value (stack, tables) = some (stack', tables')) :
    stack' = stack ∧ ((top stack).fields? tables).isSome ∧
      ((top stack').fields? tables').isSome := by
  have isTable := storeTop_isSome_iff.mp (Option.isSome_of_eq_some stored)
  cases stack with
  | nil => cases stored
  | cons first rest =>
    cases first with
    | object identity =>
      rw [storeTop] at stored
      split at stored
      · obtain ⟨rfl, rfl⟩ := Prod.mk.inj (Option.some.inj stored)
        refine ⟨rfl, isTable, ?_⟩
        simpa [top, Value.fields?, setField] using isTable
      · cases stored
    | _ => cases stored

/-- **`lua_settable` returns exactly if it stores the field.** -/
theorem settable_eq_returned_iff {key value : Value ν} (notNil : key ≠ .nil) {stack : Stack ν}
    {tables : Contents ν} {result : Contents ν × Stack ν} :
    settable tables (value :: key :: stack) = .returned result ↔
      storeTop key value (stack, tables) = some (result.2, result.1) := by
  cases stack with
  | nil => simp [settable, storeTop]
  | cons first rest =>
    cases first with
    | object identity =>
      by_cases isTable : (tables identity).isSome
      · rw [settable, storeTop, if_pos ⟨isTable, notNil⟩, if_pos isTable, Ending.returned.injEq,
          Option.some.injEq, Prod.ext_iff, Prod.ext_iff, and_comm]
      · rw [settable, storeTop, if_neg fun both => isTable both.1, if_neg isTable]
        exact iff_of_false (fun same => by cases same) (fun same => by cases same)
    | _ => simp [settable, storeTop]

/-- **It does not return on anything else than a table.** -/
theorem settable_not_returned {tables : Contents ν} {key value noTable : Value ν} {rest : Stack ν}
    (other : noTable.fields? tables = none) (result : Contents ν × Stack ν) :
    settable tables (value :: key :: noTable :: rest) ≠ .returned result := by
  cases noTable with
  | object identity =>
    have none : tables identity = none := other
    simp [settable, none]
  | _ =>
    intro same
    cases same

end Fields

end Lua
