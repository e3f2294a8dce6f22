/-
**C strings.**

* `Byte`, `Bytes` — a C `char`, and a byte string of known length: what a Lua string, a
  `std::string` or a received datagram holds.
* `CString` — what a C function sees behind a `char *`: the bytes before the first NUL. The absence
  of NUL bytes is a field, so that `strlen` is the length of the list.
* `cstr` — the C string at the start of a byte string. `cstr_eq_iff`: nothing is lost exactly when
  the byte string has no NUL; `cstr_append_nul` reads a terminated copy back.
* `cut` — `strchr`: the text before and after the first occurrence of a byte, with the three facts
  its callers need (`cut_append`, `cut_eq_none`, `cut_eq_some`).
-/

import Mathlib.Data.List.Basic
import Mathlib.Data.List.TakeWhile

namespace Clib

/-- A C `char`. Only equality of `char`s is used, so signedness does not matter. -/
abbrev Byte := UInt8

/-- A byte string of known length; it may hold NUL bytes. -/
abbrev Bytes := List Byte

/-- A text of ASCII characters as bytes. -/
def ascii (text : String) : Bytes := text.toList.map fun c => UInt8.ofNat c.toNat

/-- The bytes behind a `char *`, up to its NUL terminator. -/
@[ext] structure CString where
  bytes : Bytes
  noNul : (0 : Byte) ∉ bytes
deriving DecidableEq

/-- `strlen`. -/
def CString.strlen (text : CString) : Nat := text.bytes.length

/-- **The C string at the start of a byte string.** -/
def cstr (data : Bytes) : CString where
  bytes := data.takeWhile (· != 0)
  noNul member := by simpa using List.mem_takeWhile_imp member

theorem cstr_bytes (data : Bytes) : (cstr data).bytes = data.takeWhile (· != 0) := rfl

theorem cstr_append_nul {text : Bytes} (clean : (0 : Byte) ∉ text) (rest : Bytes) :
    (cstr (text ++ 0 :: rest)).bytes = text := by
  have each : ∀ b ∈ text, (b != 0) = true := by
    intro b member
    have different : b ≠ 0 := fun zero => clean (zero ▸ member)
    simpa using different
  rw [cstr_bytes, List.takeWhile_append_of_pos each, List.takeWhile_cons]
  simp

/-- **A byte string survives as a C string exactly when it has no NUL.** -/
theorem cstr_eq_iff (data : Bytes) : (cstr data).bytes = data ↔ (0 : Byte) ∉ data := by
  constructor
  · intro same
    rw [← same]
    exact (cstr data).noNul
  · intro clean
    rw [cstr_bytes, List.takeWhile_eq_self_iff]
    intro b member
    have different : b ≠ 0 := fun zero => clean (zero ▸ member)
    simpa using different

/-- The C string of terminated data ends at its first NUL. -/
theorem cstr_terminated (data : Bytes) : ∃ rest, data ++ [0] = (cstr data).bytes ++ 0 :: rest := by
  induction data with
  | nil => exact ⟨[], rfl⟩
  | cons b data ih =>
    obtain ⟨rest, shape⟩ := ih
    by_cases zero : b = 0
    · exact ⟨data ++ [0], by rw [cstr_bytes, List.takeWhile_cons]; simp [zero]⟩
    · refine ⟨rest, ?_⟩
      rw [cstr_bytes, List.takeWhile_cons, if_pos (by simpa using zero), ← cstr_bytes,
        List.cons_append, shape, List.cons_append]

theorem cstr_length_le (data : Bytes) : (cstr data).bytes.length ≤ data.length :=
  (List.takeWhile_prefix _).length_le

/-- A NUL in the data makes the C string strictly shorter. -/
theorem cstr_length_lt {data : Bytes} (nul : (0 : Byte) ∈ data) :
    (cstr data).bytes.length < data.length := by
  refine lt_of_le_of_ne (cstr_length_le data) fun same => ?_
  have whole : (cstr data).bytes = data :=
    (List.takeWhile_prefix _).eq_of_length same
  exact (cstr_eq_iff data).mp whole nul

/-! ### The first occurrence of a byte -/

section Cut

variable {α : Type} [DecidableEq α]

/-- `strchr`: what stands before and after the first occurrence of `c`, `none` for a null result. -/
def cut (c : α) : List α → Option (List α × List α)
  | [] => none
  | x :: rest => if x = c then some ([], rest) else (cut c rest).map fun p => (x :: p.1, p.2)

theorem cut_append {c : α} {before : List α} (clean : c ∉ before) (after : List α) :
    cut c (before ++ c :: after) = some (before, after) := by
  induction before with
  | nil => simp [cut]
  | cons x before ih =>
    have different : x ≠ c := fun same => clean (by simp [same])
    have tailClean : c ∉ before := fun member => clean (List.mem_cons_of_mem _ member)
    rw [List.cons_append, cut, if_neg different, ih tailClean]
    rfl

theorem cut_eq_none {c : α} {text : List α} : cut c text = none ↔ c ∉ text := by
  induction text with
  | nil => simp [cut]
  | cons x text ih =>
    by_cases same : x = c
    · simp [cut, same]
    · rw [cut, if_neg same, Option.map_eq_none_iff, ih, List.mem_cons, not_or]
      exact ⟨fun clean => ⟨fun back => same back.symm, clean⟩, fun clean => clean.2⟩

theorem cut_eq_some {c : α} {text before after : List α} :
    cut c text = some (before, after) ↔ c ∉ before ∧ text = before ++ c :: after := by
  constructor
  · intro found
    have member : c ∈ text := by
      by_contra missing
      rw [cut_eq_none.mpr missing] at found
      cases found
    obtain ⟨first, rest, rfl, clean⟩ := List.eq_append_cons_of_mem member
    rw [cut_append clean] at found
    cases found
    exact ⟨clean, rfl⟩
  · rintro ⟨clean, rfl⟩
    exact cut_append clean after

end Cut

end Clib
