/-
**The Lua C API, as far as a caller of Lua functions sees it.**

* `Value` — a Lua value; tables, functions and userdata are known by their identity only.
* `Stack` — the stack of one C frame, top first; `push`, `pop`, `top`.
* `Numerals` — what Lua's number type does, taken as given: the conversions between numbers, texts and
  C's `int`.
* `pcall` — the effect of `lua_pcall` on the stack, for either `Outcome` of the called function.
-/

import Bacteria.Lib.Decimal

namespace Lua

open Clib

/-- The conversions of Lua's number type `ν`. -/
structure Numerals (ν : Type) where
  /-- `lua_pushnumber` of a C integer. -/
  ofInt : Int → ν
  /-- `luaO_str2d`: the number a string denotes. -/
  str2number : Bytes → Option ν
  /-- `(int)lua_tonumber(L, index)`. -/
  toInt : ν → Int32
  /-- The text of a number in `lua_tostring`. -/
  number2str : ν → Bytes

/-- Lua's numbers as far as they are integers: a numeral is a string of decimal digits. -/
def Numerals.integers : Numerals Int where
  ofInt n := n
  str2number text := if text ≠ [] ∧ text.all isDigit then some (digitsValue text) else none
  toInt n := Int32.ofInt n
  number2str n := decimalInt n

/-- A Lua value. -/
inductive Value (ν : Type) where
  | nil
  | boolean (b : Bool)
  | number (n : ν)
  | string (text : Bytes)
  | object (identity : Nat)
deriving DecidableEq

/-- How a Lua function ends that was called in protected mode. -/
inductive Outcome (ν : Type) where
  | returned (values : List (Value ν))
  | raised (message : Value ν)
deriving DecidableEq

/-- The stack of a C frame, top first. -/
abbrev Stack (ν : Type) := List (Value ν)

section Stack

variable {ν : Type}

/-- `lua_push…`, `lua_getglobal`. -/
def push (stack : Stack ν) (value : Value ν) : Stack ν := value :: stack

/-- `lua_pushstring`: the C string. -/
def pushString (stack : Stack ν) (text : CString) : Stack ν := push stack (.string text.bytes)

/-- `lua_pop(L, count)`. -/
def pop (stack : Stack ν) (count : Nat) : Stack ν := stack.drop count

/-- The value at index -1. -/
def top (stack : Stack ν) : Value ν := stack.headD .nil

/-- `lua_toboolean`. -/
def Value.toBoolean : Value ν → Bool
  | .nil => false
  | .boolean b => b
  | _ => true

/-- `lua_isnil`. -/
def Value.isNil : Value ν → Bool
  | .nil => true
  | _ => false

/-- `lua_tonumber`, `none` for a value that is no number; its success is `lua_isnumber`. -/
def Value.toNumber (num : Numerals ν) : Value ν → Option ν
  | .number n => some n
  | .string text => num.str2number text
  | _ => none

/-- `lua_tolstring`, `none` for a null result. -/
def Value.toLString (num : Numerals ν) : Value ν → Option Bytes
  | .string text => some text
  | .number n => some (num.number2str n)
  | _ => none

/-- The results of a call cut or padded with nil to `count` values. -/
def adjust (values : List (Value ν)) (count : Nat) : List (Value ν) :=
  (values ++ List.replicate count Value.nil).take count

/-- `lua_pcall(L, nargs, nresults, 0)`: the status it returns and the new stack. The function and
its arguments are taken off in any case. -/
def pcall (nargs nresults : Nat) (outcome : Outcome ν) (stack : Stack ν) : Nat × Stack ν :=
  match outcome with
  | .returned values => (0, (adjust values nresults).reverse ++ pop stack (nargs + 1))
  | .raised message => (2, push (pop stack (nargs + 1)) message)

/-- The only result of a call for one. -/
theorem adjust_one (values : List (Value ν)) : adjust values 1 = [values.headD .nil] := by
  cases values with
  | nil => rfl
  | cons value values => simp [adjust]

end Stack

end Lua
