/-
**`string.tohex` and `string.fromhex`.**

src/luasubmodules/bencdec.lua.

* `tohex` — `%02X` for every byte.
* `strtoul16`, `tonumber16`, `charOf` — how one pair is read: the rules of `strtoul`, so that blanks
  and signs are accepted beside digits.
* `fromhex` — pair by pair; `none` when `string.char` raises. `fromhex_tohex`: it reads back what
  `tohex` writes.
-/

import Bacteria.Lib.Decimal

namespace Bacteria.EncDec

open Clib

/-- An upper case hexadecimal digit. -/
def hexDigit (value : Nat) : Byte := UInt8.ofNat (if value < 10 then 48 + value else 55 + value)

/-- `string.format('%02X', string.byte(c))`. -/
def hexPair (b : Byte) : Bytes := [hexDigit (b.toNat / 16), hexDigit (b.toNat % 16)]

/-- `string.tohex`. -/
def tohex (text : Bytes) : Bytes := text.flatMap hexPair

/-- The value of a hexadecimal digit in either case. -/
def hexValue (b : Byte) : Option Nat :=
  let code := b.toNat
  if 48 ≤ code ∧ code ≤ 57 then some (code - 48)
  else if 65 ≤ code ∧ code ≤ 70 then some (code - 55)
  else if 97 ≤ code ∧ code ≤ 102 then some (code - 87)
  else none

/-- The value of the hexadecimal digits at the start of a text, how many they are, and the text behind
them. -/
def hexDigits (value count : Nat) : Bytes → Nat × Nat × Bytes
  | [] => (value, count, [])
  | b :: rest =>
    match hexValue b with
    | some digit => hexDigits (16 * value + digit) (count + 1) rest
    | none => (value, count, b :: rest)

/-- `0x` or `0X`, as far as a digit follows it. -/
def skipPrefix : Bytes → Bytes
  | zero :: x :: digit :: rest =>
    if zero = 48 ∧ (x = 120 ∨ x = 88) ∧ (hexValue digit).isSome then digit :: rest
    else zero :: x :: digit :: rest
  | text => text

/-- `strtoul(text, &rest, 16)`: the number and `rest`; `none` when `rest` is `text`. -/
def strtoul16 (text : Bytes) : Option (Nat × Bytes) :=
  let unsigned := fun (negative : Bool) (text : Bytes) =>
    let (value, count, rest) := hexDigits 0 0 (skipPrefix text)
    if count = 0 then none
    else if 2 ^ 64 ≤ value then some (2 ^ 64 - 1, rest)
    else some (if negative then (2 ^ 64 - value) % 2 ^ 64 else value, rest)
  match text.dropWhile isSpace with
  | [] => none
  | b :: rest =>
    if b = 45 then unsigned true rest
    else if b = 43 then unsigned false rest
    else unsigned false (b :: rest)

/-- `tonumber(text, 16)`, `none` for nil. -/
def tonumber16 (text : Bytes) : Option Nat :=
  match strtoul16 (cstr text).bytes with
  | some (value, rest) => if rest.all isSpace then some value else none
  | none => none

/-- `string.char` of what `tonumber` returned, `none` when it raises. Which `int` a number is read as
that no `int` holds is up to the machine: `wide`. -/
def charOf (wide : Int) (number : Option Nat) : Option Byte :=
  match number with
  | none => none
  | some value =>
    let c := if value < 2 ^ 31 then (value : Int) else wide
    if 0 ≤ c ∧ c < 256 then some (UInt8.ofNat c.toNat) else none

/-- `string.fromhex`; a last byte without a partner stays as it is. -/
def fromhex (wide : Int) : Bytes → Option Bytes
  | a :: b :: rest =>
    match charOf wide (tonumber16 [a, b]), fromhex wide rest with
    | some c, some text => some (c :: text)
    | _, _ => none
  | rest => some rest

/-! ### Reading back what `tohex` writes -/

section Roundtrip

/-- Each of the sixteen digits has its own value, and is no blank, no sign and no NUL. -/
theorem hexDigit_spec : ∀ value < 16, hexValue (hexDigit value) = some value ∧
    isSpace (hexDigit value) = false ∧ hexDigit value ≠ 45 ∧ hexDigit value ≠ 43 ∧
    hexDigit value ≠ 0 := by decide

/-- Two digits denote a number below 256. -/
theorem tonumber16_digits {high low : Nat} (highSmall : high < 16) (lowSmall : low < 16) :
    tonumber16 [hexDigit high, hexDigit low] = some (16 * high + low) := by
  obtain ⟨highValue, noBlank, noMinus, noPlus, highSet⟩ := hexDigit_spec high highSmall
  obtain ⟨lowValue, _, _, _, lowSet⟩ := hexDigit_spec low lowSmall
  have whole : (cstr [hexDigit high, hexDigit low]).bytes = [hexDigit high, hexDigit low] := by
    rw [cstr_eq_iff]
    simp only [List.mem_cons, List.not_mem_nil, or_false, not_or]
    exact ⟨highSet.symm, lowSet.symm⟩
  have number : strtoul16 [hexDigit high, hexDigit low] = some (16 * high + low, []) := by
    simp only [strtoul16, List.dropWhile_cons, noBlank, Bool.false_eq_true, if_false,
      if_neg noMinus, if_neg noPlus, skipPrefix, hexDigits, highValue, lowValue]
    rw [if_neg (by omega), if_neg (by omega), Nat.mul_zero, Nat.zero_add]
  rw [tonumber16, whole, number]
  rfl

theorem charOf_hexPair (wide : Int) (b : Byte) : charOf wide (tonumber16 (hexPair b)) = some b := by
  have bound : b.toNat < 256 := b.toNat_lt
  have joined : 16 * (b.toNat / 16) + b.toNat % 16 = b.toNat := Nat.div_add_mod _ _
  rw [hexPair, tonumber16_digits (by omega) (by omega), joined]
  simp only [charOf]
  rw [if_pos (by omega), if_pos (by omega), Int.toNat_natCast, UInt8.ofNat_toNat]

theorem fromhex_hexPair (wide : Int) (b : Byte) (rest : Bytes) :
    fromhex wide (hexPair b ++ rest) = (fromhex wide rest).map (b :: ·) := by
  have pair := charOf_hexPair wide b
  rw [hexPair] at pair ⊢
  simp only [List.cons_append, List.nil_append, fromhex, pair]
  cases fromhex wide rest with
  | none => rfl
  | some text => rfl

/-- **`fromhex` reads back what `tohex` writes.** -/
theorem fromhex_tohex (wide : Int) (text : Bytes) : fromhex wide (tohex text) = some text := by
  induction text with
  | nil => rfl
  | cons b text ih =>
    rw [tohex] at ih
    rw [tohex, List.flatMap_cons, fromhex_hexPair, ih, Option.map_some]

example : fromhex 0 (ascii " A+b") = some [10, 11] := by decide

end Roundtrip

end Bacteria.EncDec
