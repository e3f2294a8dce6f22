/-
**`std::string`: `find` and `substr`.**

Sizes and positions are 64-bit numbers; `npos` is the largest, and sums and differences wrap.

* `find`, `substr` — `none` stands for the `std::out_of_range` that `substr` throws.
* `sizeSub_of_le` — a difference that does not wrap.
* `substr_between` — the piece between two known parts of a string.
-/

import Bacteria.Lib.CString
import Mathlib.Algebra.Ring.Nat

namespace Clib

/-- `std::string::npos`. -/
def npos : Nat := 2 ^ 64 - 1

/-- A sum of two sizes. -/
def sizeAdd (first second : Nat) : Nat := (first + second) % 2 ^ 64

/-- A difference of two sizes. -/
def sizeSub (first second : Nat) : Nat := (first + 2 ^ 64 - second) % 2 ^ 64

/-- `text.find(c)`. -/
def find (text : Bytes) (c : Byte) : Nat :=
  match cut c text with
  | some (before, _) => before.length
  | none => npos

/-- `text.substr(pos, count)`. -/
def substr (text : Bytes) (pos count : Nat) : Option Bytes :=
  if pos ≤ text.length then some ((text.drop pos).take count) else none

theorem sizeAdd_of_lt {first second : Nat} (bounded : first + second < 2 ^ 64) :
    sizeAdd first second = first + second := Nat.mod_eq_of_lt bounded

theorem sizeSub_of_le {first second : Nat} (bounded : first < 2 ^ 64) (le : second ≤ first) :
    sizeSub first second = first - second := by
  rw [sizeSub, Nat.add_comm, Nat.add_sub_assoc le, Nat.add_mod_left]
  exact Nat.mod_eq_of_lt (lt_of_le_of_lt (Nat.sub_le _ _) bounded)

theorem find_append {c : Byte} {before : Bytes} (clean : c ∉ before) (after : Bytes) :
    find (before ++ c :: after) c = before.length := by
  rw [find, cut_append clean]

/-- **The piece between two parts.** -/
theorem substr_between {text before middle after : Bytes} {pos count : Nat}
    (shape : text = before ++ (middle ++ after)) (start : pos = before.length)
    (size : count = middle.length) : substr text pos count = some middle := by
  have inside : pos ≤ text.length := by
    rw [shape, start, List.length_append]
    exact Nat.le_add_right _ _
  rw [substr, if_pos inside, shape, start, size, List.drop_left, List.take_left]

/-- The rest of a text behind a known part. -/
theorem substr_rest {text before after : Bytes} {pos count : Nat} (shape : text = before ++ after)
    (start : pos = before.length) (size : after.length ≤ count) :
    substr text pos count = some after := by
  have inside : pos ≤ text.length := by
    rw [shape, start, List.length_append]
    exact Nat.le_add_right _ _
  rw [substr, if_pos inside, shape, start, List.drop_left, List.take_of_length_le size]

end Clib
