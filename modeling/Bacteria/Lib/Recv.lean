/-
**Results of `recv` and `recvfrom`.**

* `RecvResult` — the bytes that were stored, or a failure; `value` is the `ssize_t` the call returns.
* `sizeT` — a signed number stored in a `size_t`.
* `not_sizeT_lt_zero`, `sizeT_le_zero_iff` — what the comparisons with zero say of a result that went
  through a `size_t`: none holds of a failure.
-/

import Bacteria.Lib.CString
import Mathlib.Algebra.Order.Ring.Int

namespace Clib

/-- What a call left: -1, with `errno` telling whether there was only no data yet, or the bytes it
stored; none of them when the peer has closed. A length is a `ssize_t`. -/
inductive RecvResult where
  | failed (noDataYet : Bool)
  | data (bytes : Bytes) (fits : bytes.length < 2 ^ 63)
deriving DecidableEq

namespace RecvResult

/-- The `ssize_t` the call returns. -/
def value : RecvResult → Int
  | failed _ => -1
  | data bytes _ => bytes.length

/-- The bytes it stored. -/
def bytes : RecvResult → Bytes
  | failed _ => []
  | data bytes _ => bytes

/-- The call failed because there was no data yet. -/
def noDataYet : RecvResult → Bool
  | failed again => again
  | data _ _ => false

end RecvResult

/-- A signed number stored in a `size_t`. -/
def sizeT (n : Int) : Nat := (n % 2 ^ 64).toNat

theorem sizeT_failed (again : Bool) : sizeT (RecvResult.failed again).value = 2 ^ 64 - 1 := by
  rfl

theorem sizeT_data (bytes : Bytes) (fits : bytes.length < 2 ^ 63) :
    sizeT (RecvResult.data bytes fits).value = bytes.length := by
  have same : (bytes.length : Int) % 2 ^ 64 = bytes.length :=
    Int.emod_eq_of_lt (by omega) (by omega)
  rw [sizeT, RecvResult.value, same, Int.toNat_natCast]

/-- **A `size_t` is never negative.** -/
theorem not_sizeT_lt_zero (n : Int) : ¬ sizeT n < 0 := Nat.not_lt_zero _

/-- **A result is at most zero as a `size_t`** exactly if nothing was received from a closed peer. -/
theorem sizeT_le_zero_iff (r : RecvResult) : sizeT r.value ≤ 0 ↔ r.value = 0 := by
  cases r with
  | failed again =>
    rw [sizeT_failed, RecvResult.value]
    omega
  | data bytes fits =>
    rw [sizeT_data, RecvResult.value]
    omega

/-- A result is -1 or the number of its bytes. -/
theorem RecvResult.value_cases (r : RecvResult) :
    (r.value = -1 ∧ ∃ again, r = failed again) ∨ r.value = r.bytes.length := by
  cases r with
  | failed again => exact Or.inl ⟨rfl, again, rfl⟩
  | data bytes fits => exact Or.inr rfl

end Clib
