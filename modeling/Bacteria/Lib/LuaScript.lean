/-
**Scripts: Lua's operators, and functions that may raise an error.**

* `Script` — a Lua function over a state; an error keeps what was changed before it.
* `run_bind_of_some` — a statement that raises no error is followed by the next one.
* `luaNot`, `luaEq` — `not`, and `==` on values without metamethods.
* `not_eq_nil`, `not_eq_object` — `not v == w` asks whether a boolean is `w`.
-/

import Bacteria.Lib.Lua

namespace Lua

/-- A Lua function, up to its value or the error it raises. -/
abbrev Script (σ : Type) := OptionT (StateM σ)

section Scripts

variable {σ α β : Type} {first : Script σ α} {next : α → Script σ β} {state between : σ}

/-- **One statement, then the others.** -/
theorem run_bind_of_some {value : α} (done : first.run state = (some value, between)) :
    (first >>= next).run state = (next value).run between := by
  have unfolded : (first >>= next).run state =
      (Option.elim (first.run state).1 (pure none) fun value => (next value).run)
        (first.run state).2 := by
    rw [OptionT.run_bind]
    rfl
  rw [unfolded, done]
  rfl

end Scripts

section Operators

variable {ν : Type}

/-- `not v`. -/
def luaNot (v : Value ν) : Value ν := .boolean (!v.toBoolean)

variable [DecidableEq ν]

/-- `v == w`; tables and userdata are equal to themselves only. -/
def luaEq (v w : Value ν) : Value ν := .boolean (v = w)

/-- **`not v == nil` is false**, whatever the value: `not` binds tighter than `==`. -/
theorem not_eq_nil (v : Value ν) : (luaEq (luaNot v) .nil).toBoolean = false := rfl

/-- And so is `not v == {}`. -/
theorem not_eq_object (v : Value ν) (identity : Nat) :
    (luaEq (luaNot v) (.object identity)).toBoolean = false := rfl

end Operators

end Lua
