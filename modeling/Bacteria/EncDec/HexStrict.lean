/-
**How strict `string.fromhex` is.**

src/luasubmodules/bencdec.lua; the model is in `Hex`.

* `tonumber16_pair` — what `tonumber(cc, 16)` makes of two bytes, in closed form.
* `Accepted` — the pairs that are read; `charOf_isSome_iff` — they are these and no others.
* `fromhex_isSome_iff` — a text is read when all its pairs are; a last byte alone is not looked at.
* `fromhex_of_hexDigits` — digits come back from `tohex` in upper case.
* `hexCodec` — the three together.
-/

import Bacteria.EncDec.Hex
import Mathlib.Algebra.Order.Ring.Int
import Mathlib.Data.List.Induction

namespace Bacteria.EncDec

open Clib

/-! ### One number -/

section Number

variable {a b : Byte} {v w : Nat}

/-- `strtoul16` behind its blanks and sign. -/
def unsigned16 (negative : Bool) (text : Bytes) : Option (Nat × Bytes) :=
  let (value, count, rest) := hexDigits 0 0 (skipPrefix text)
  if count = 0 then none
  else if 2 ^ 64 ≤ value then some (2 ^ 64 - 1, rest)
  else some (if negative then (2 ^ 64 - value) % 2 ^ 64 else value, rest)

theorem strtoul16_eq (text : Bytes) : strtoul16 text =
    match text.dropWhile isSpace with
    | [] => none
    | b :: rest =>
      if b = 45 then unsigned16 true rest
      else if b = 43 then unsigned16 false rest
      else unsigned16 false (b :: rest) := rfl

/-- The bytes that are digits, and their values. -/
theorem hexValue_range (digit : hexValue b = some v) :
    (48 ≤ b.toNat ∧ b.toNat ≤ 57 ∧ v = b.toNat - 48) ∨
      (65 ≤ b.toNat ∧ b.toNat ≤ 70 ∧ v = b.toNat - 55) ∨
        (97 ≤ b.toNat ∧ b.toNat ≤ 102 ∧ v = b.toNat - 87) := by
  simp only [hexValue] at digit
  by_cases decimal : 48 ≤ b.toNat ∧ b.toNat ≤ 57
  · rw [if_pos decimal] at digit
    exact Or.inl ⟨decimal.1, decimal.2, (Option.some.inj digit).symm⟩
  by_cases upper : 65 ≤ b.toNat ∧ b.toNat ≤ 70
  · rw [if_neg decimal, if_pos upper] at digit
    exact Or.inr (Or.inl ⟨upper.1, upper.2, (Option.some.inj digit).symm⟩)
  by_cases lower : 97 ≤ b.toNat ∧ b.toNat ≤ 102
  · rw [if_neg decimal, if_neg upper, if_pos lower] at digit
    exact Or.inr (Or.inr ⟨lower.1, lower.2, (Option.some.inj digit).symm⟩)
  · rw [if_neg decimal, if_neg upper, if_neg lower] at digit
    cases digit

/-- A digit has a value below 16, and is no blank, no sign and no NUL. -/
theorem hexValue_spec (digit : hexValue b = some v) :
    v < 16 ∧ isSpace b = false ∧ b ≠ 45 ∧ b ≠ 43 ∧ b ≠ 0 := by
  have range := hexValue_range digit
  have different : ∀ code : Byte, code.toNat < 48 → b ≠ code := by
    rintro code small rfl
    omega
  refine ⟨by omega, ?_, different 45 (by decide), different 43 (by decide), different 0 (by decide)⟩
  rw [isSpace, Bool.or_eq_false_iff, Bool.and_eq_false_iff]
  exact ⟨beq_false_of_ne (by omega), Or.inr (decide_eq_false (by omega))⟩

/-- A number ends before what is no digit. -/
theorem unsigned16_of_none (negative : Bool) (rest : Bytes) (short : rest.length ≤ 1)
    (other : hexValue a = none) : unsigned16 negative (a :: rest) = none := by
  have whole : skipPrefix (a :: rest) = a :: rest := by
    match rest, short with
    | [], _ => rfl
    | [_], _ => rfl
  simp only [unsigned16, whole, hexDigits, other, if_true]

/-- A number of one digit. -/
theorem unsigned16_digit (negative : Bool) (rest : Bytes) (short : rest.length ≤ 1)
    (digit : hexValue a = some v) (other : ∀ b ∈ rest, hexValue b = none) :
    unsigned16 negative (a :: rest) =
      some (if negative then (2 ^ 64 - v) % 2 ^ 64 else v, rest) := by
  have small := (hexValue_spec digit).1
  match rest, short, other with
  | [], _, _ =>
    simp only [unsigned16, skipPrefix, hexDigits, digit, Nat.mul_zero, Nat.zero_add]
    rw [if_neg Nat.one_ne_zero, if_neg (by omega)]
  | [b], _, other =>
    simp only [unsigned16, skipPrefix, hexDigits, digit, other b (List.mem_singleton.mpr rfl),
      Nat.mul_zero, Nat.zero_add]
    rw [if_neg Nat.one_ne_zero, if_neg (by omega)]

/-- A number of two digits. -/
theorem unsigned16_digits (high : hexValue a = some v) (low : hexValue b = some w) :
    unsigned16 false [a, b] = some (16 * v + w, []) := by
  have highSmall := (hexValue_spec high).1
  have lowSmall := (hexValue_spec low).1
  simp only [unsigned16, skipPrefix, hexDigits, high, low, Nat.mul_zero, Nat.zero_add]
  rw [if_neg (by decide), if_neg (by omega)]
  rfl

/-! Blanks and signs. -/

theorem strtoul16_blank (blank : isSpace a = true) (rest : Bytes) :
    strtoul16 (a :: rest) = strtoul16 rest := by
  rw [strtoul16_eq, strtoul16_eq, List.dropWhile_cons, if_pos blank]

theorem strtoul16_minus (rest : Bytes) : strtoul16 (45 :: rest) = unsigned16 true rest := rfl

theorem strtoul16_plus (rest : Bytes) : strtoul16 (43 :: rest) = unsigned16 false rest := rfl

theorem strtoul16_other (unblank : isSpace a = false) (noMinus : a ≠ 45) (noPlus : a ≠ 43)
    (rest : Bytes) : strtoul16 (a :: rest) = unsigned16 false (a :: rest) := by
  rw [strtoul16_eq, List.dropWhile_cons, if_neg (by rw [unblank]; exact Bool.false_ne_true)]
  simp only [if_neg noMinus, if_neg noPlus]

/-- A digit starts a number. -/
theorem strtoul16_digit (digit : hexValue a = some v) (rest : Bytes) :
    strtoul16 (a :: rest) = unsigned16 false (a :: rest) :=
  have spec := hexValue_spec digit
  strtoul16_other spec.2.1 spec.2.2.1 spec.2.2.2.1 rest

/-- One byte that is no digit is no number. -/
theorem strtoul16_of_none (other : hexValue a = none) : strtoul16 [a] = none := by
  by_cases minus : a = 45
  · rw [minus]
    rfl
  by_cases plus : a = 43
  · rw [plus]
    rfl
  cases blank : isSpace a with
  | true =>
    rw [strtoul16_blank blank]
    rfl
  | false => rw [strtoul16_other blank minus plus, unsigned16_of_none false [] (Nat.zero_le 1) other]

/-- What `tonumber(cc, 16)` reads in two bytes. -/
def readPair (a b : Byte) : Option Nat :=
  match hexValue a, hexValue b with
  | some v, some w => some (16 * v + w)
  | some v, none => if isSpace b ∨ b = 0 then some v else none
  | none, some w =>
    if isSpace a ∨ a = 43 then some w else if a = 45 then some ((2 ^ 64 - w) % 2 ^ 64) else none
  | none, none => none

theorem cstr_pair (first : a ≠ 0) (second : b ≠ 0) : (cstr [a, b]).bytes = [a, b] := by
  rw [cstr_eq_iff]
  simp only [List.mem_cons, List.not_mem_nil, or_false, not_or]
  exact ⟨first.symm, second.symm⟩

theorem cstr_closed (first : a ≠ 0) : (cstr [a, 0]).bytes = [a] :=
  cstr_append_nul (fun member => first (List.mem_singleton.mp member).symm) []

/-- A digit, and something else behind it. -/
theorem tonumber16_digit (first : hexValue a = some v) (second : hexValue b = none) :
    tonumber16 [a, b] = if isSpace b ∨ b = 0 then some v else none := by
  have set := (hexValue_spec first).2.2.2.2
  by_cases closed : b = 0
  · have number := unsigned16_digit false [] (Nat.zero_le 1) first
      fun _ member => absurd member List.not_mem_nil
    rw [if_pos (Or.inr closed), closed, tonumber16, cstr_closed set, strtoul16_digit first, number]
    rfl
  · have number := unsigned16_digit false [b] (le_refl 1) first
      fun _ member => by rwa [List.mem_singleton.mp member]
    rw [tonumber16, cstr_pair set closed, strtoul16_digit first, number]
    simp only [List.all_cons, List.all_nil, Bool.and_true, closed, or_false, Bool.false_eq_true,
      if_false]

/-- Something else, and a digit behind it. -/
theorem tonumber16_before (first : hexValue a = none) (second : hexValue b = some w) :
    tonumber16 [a, b] = if isSpace a ∨ a = 43 then some w
      else if a = 45 then some ((2 ^ 64 - w) % 2 ^ 64) else none := by
  have number : ∀ negative, unsigned16 negative [b] =
      some (if negative then (2 ^ 64 - w) % 2 ^ 64 else w, []) := fun negative =>
    unsigned16_digit negative [] (Nat.zero_le 1) second fun _ member => absurd member List.not_mem_nil
  have set := (hexValue_spec second).2.2.2.2
  by_cases closed : a = 0
  · rw [closed]
    rfl
  rw [tonumber16, cstr_pair closed set]
  cases blank : isSpace a with
  | true =>
    rw [strtoul16_blank blank, strtoul16_digit second, number false, if_pos (Or.inl rfl)]
    rfl
  | false =>
    by_cases plus : a = 43
    · rw [plus, strtoul16_plus, number false, if_pos (Or.inr rfl)]
      rfl
    rw [if_neg (not_or.mpr ⟨Bool.false_ne_true, plus⟩)]
    by_cases minus : a = 45
    · rw [minus, strtoul16_minus, number true, if_pos rfl]
      rfl
    · rw [if_neg minus, strtoul16_other blank minus plus,
        unsigned16_of_none false [b] (le_refl 1) first]

/-- Two bytes without a digit. -/
theorem tonumber16_none (first : hexValue a = none) (second : hexValue b = none) :
    tonumber16 [a, b] = none := by
  by_cases start : a = 0
  · rw [start]
    rfl
  by_cases closed : b = 0
  · rw [closed, tonumber16, cstr_closed start, strtoul16_of_none first]
  rw [tonumber16, cstr_pair start closed]
  by_cases minus : a = 45
  · rw [minus, strtoul16_minus, unsigned16_of_none true [] (Nat.zero_le 1) second]
  by_cases plus : a = 43
  · rw [plus, strtoul16_plus, unsigned16_of_none false [] (Nat.zero_le 1) second]
  cases blank : isSpace a with
  | true => rw [strtoul16_blank blank, strtoul16_of_none second]
  | false =>
    rw [strtoul16_other blank minus plus, unsigned16_of_none false [b] (le_refl 1) first]

/-- **What is read in two bytes.** -/
theorem tonumber16_pair (a b : Byte) : tonumber16 [a, b] = readPair a b := by
  cases first : hexValue a with
  | some v =>
    cases second : hexValue b with
    | some w =>
      have highSet := (hexValue_spec first).2.2.2.2
      have lowSet := (hexValue_spec second).2.2.2.2
      rw [tonumber16, cstr_pair highSet lowSet, strtoul16_digit first,
        unsigned16_digits first second]
      simp only [readPair, first, second]
      rfl
    | none =>
      rw [tonumber16_digit first second]
      simp only [readPair, first, second]
  | none =>
    cases second : hexValue b with
    | some w =>
      rw [tonumber16_before first second]
      simp only [readPair, first, second]
    | none =>
      rw [tonumber16_none first second]
      simp only [readPair, first, second]

end Number

/-! ### One pair -/

/-- **The pairs that are read**: two digits; a digit and a blank or NUL; a blank or `+` and a digit; `-`
and a digit, zero unless the machine takes the numbers next to `2 ^ 64` for a byte. -/
inductive Accepted (wide : Int) (a b : Byte) : Prop where
  | digits (high : (hexValue a).isSome) (low : (hexValue b).isSome)
  | digit (high : (hexValue a).isSome) (close : isSpace b = true ∨ b = 0)
  | before (start : isSpace a = true ∨ a = 43) (low : (hexValue b).isSome)
  | minus (start : a = 45) (low : (hexValue b).isSome) (byte : b = 48 ∨ 0 ≤ wide ∧ wide < 256)

section Pair

variable {wide : Int} {a b : Byte} {v w : Nat}

/-- The digit zero. -/
theorem hexValue_zero_iff : hexValue b = some 0 ↔ b = 48 := by
  constructor
  · intro digit
    have range := hexValue_range digit
    have code : b.toNat = (48 : Byte).toNat := by
      change b.toNat = 48
      omega
    exact UInt8.toNat_inj.mp code
  · rintro rfl
    rfl

/-- A number below 256 is a byte. -/
theorem charOf_of_lt {value : Nat} (small : value < 256) :
    charOf wide (some value) = some (UInt8.ofNat value) := by
  simp only [charOf]
  rw [if_pos (by omega), if_pos (by omega), Int.toNat_natCast]

/-- A number that no `int` holds. -/
theorem charOf_of_wide {value : Nat} (large : 2 ^ 31 ≤ value) :
    (charOf wide (some value)).isSome ↔ 0 ≤ wide ∧ wide < 256 := by
  simp only [charOf, if_neg (not_lt.mpr large)]
  by_cases byte : 0 ≤ wide ∧ wide < 256
  · rw [if_pos byte]
    exact iff_of_true rfl byte
  · rw [if_neg byte]
    exact iff_of_false Bool.false_ne_true byte

/-- What stands for a negative digit. -/
theorem charOf_minus (digit : hexValue b = some w) :
    (charOf wide (some ((2 ^ 64 - w) % 2 ^ 64))).isSome ↔ b = 48 ∨ 0 ≤ wide ∧ wide < 256 := by
  have small := (hexValue_spec digit).1
  by_cases zero : w = 0
  · have wrapped : (2 ^ 64 - w) % 2 ^ 64 = 0 := by rw [zero, Nat.sub_zero, Nat.mod_self]
    rw [wrapped, charOf_of_lt (by decide)]
    exact iff_of_true rfl (Or.inl (hexValue_zero_iff.mp (by rw [digit, zero])))
  · have large : 2 ^ 31 ≤ (2 ^ 64 - w) % 2 ^ 64 := by omega
    have other : b ≠ 48 := by
      intro same
      rw [hexValue_zero_iff.mpr same] at digit
      exact zero (Option.some.inj digit).symm
    rw [charOf_of_wide large, or_iff_right other]

/-! What is accepted, by which of the two bytes is a digit. -/

theorem accepted_digit_iff (first : (hexValue a).isSome) (second : ¬ (hexValue b).isSome) :
    Accepted wide a b ↔ isSpace b = true ∨ b = 0 := by
  constructor
  · intro accepted
    cases accepted with
    | digits _ low => exact absurd low second
    | digit _ close => exact close
    | before _ low => exact absurd low second
    | minus _ low _ => exact absurd low second
  · exact .digit first

theorem accepted_before_iff (first : ¬ (hexValue a).isSome) (second : (hexValue b).isSome) :
    Accepted wide a b ↔
      (isSpace a = true ∨ a = 43) ∨ a = 45 ∧ (b = 48 ∨ 0 ≤ wide ∧ wide < 256) := by
  constructor
  · intro accepted
    cases accepted with
    | digits high _ => exact absurd high first
    | digit high _ => exact absurd high first
    | before start _ => exact Or.inl start
    | minus start _ byte => exact Or.inr ⟨start, byte⟩
  · rintro (start | ⟨start, byte⟩)
    · exact .before start second
    · exact .minus start second byte

theorem not_accepted (first : ¬ (hexValue a).isSome) (second : ¬ (hexValue b).isSome) :
    ¬ Accepted wide a b := by
  intro accepted
  cases accepted with
  | digits high _ => exact first high
  | digit high _ => exact first high
  | before _ low => exact second low
  | minus _ low _ => exact second low

theorem not_isSome_of_none (other : hexValue a = none) : ¬ (hexValue a).isSome := by
  rw [other]
  exact Bool.false_ne_true

/-- **A pair is read exactly if it is accepted.** -/
theorem charOf_isSome_iff (wide : Int) (a b : Byte) :
    (charOf wide (tonumber16 [a, b])).isSome ↔ Accepted wide a b := by
  rw [tonumber16_pair]
  cases first : hexValue a with
  | some v =>
    have high := hexValue_spec first
    have isDigit : (hexValue a).isSome := by rw [first, Option.isSome_some]
    cases second : hexValue b with
    | some w =>
      have low := hexValue_spec second
      simp only [readPair, first, second]
      rw [charOf_of_lt (by omega)]
      exact iff_of_true rfl (.digits isDigit (by rw [second, Option.isSome_some]))
    | none =>
      rw [accepted_digit_iff isDigit (not_isSome_of_none second)]
      simp only [readPair, first, second]
      by_cases close : isSpace b = true ∨ b = 0
      · rw [if_pos close, charOf_of_lt (by omega)]
        exact iff_of_true rfl close
      · rw [if_neg close]
        exact iff_of_false Bool.false_ne_true close
  | none =>
    have noDigit := not_isSome_of_none first
    cases second : hexValue b with
    | some w =>
      have low := hexValue_spec second
      rw [accepted_before_iff noDigit (by rw [second, Option.isSome_some])]
      simp only [readPair, first, second]
      by_cases start : isSpace a = true ∨ a = 43
      · rw [if_pos start, charOf_of_lt (by omega)]
        exact iff_of_true rfl (Or.inl start)
      rw [if_neg start, or_iff_right start]
      by_cases minus : a = 45
      · rw [if_pos minus, charOf_minus second, and_iff_right minus]
      · rw [if_neg minus]
        exact iff_of_false Bool.false_ne_true fun both => minus both.1
    | none =>
      simp only [readPair, first, second]
      exact iff_of_false Bool.false_ne_true (not_accepted noDigit (not_isSome_of_none second))

/-- Two digits are a byte of which they are the digits. -/
theorem charOf_digits (first : hexValue a = some v) (second : hexValue b = some w) :
    charOf wide (tonumber16 [a, b]) = some (UInt8.ofNat (16 * v + w)) := by
  have high := hexValue_spec first
  have low := hexValue_spec second
  rw [tonumber16_pair]
  simp only [readPair, first, second]
  exact charOf_of_lt (by omega)

end Pair

/-! ### A text -/

/-- The pairs that `gsub` finds for `'..'`. -/
def pairs : Bytes → List (Byte × Byte)
  | a :: b :: rest => (a, b) :: pairs rest
  | _ => []

/-- `string.upper` of one byte. -/
def toUpper (b : Byte) : Byte :=
  if 97 ≤ b.toNat ∧ b.toNat ≤ 122 then UInt8.ofNat (b.toNat - 32) else b

section Text

variable {wide : Int} {a b : Byte} {v : Nat}

/-- **A text is read exactly if its pairs are accepted.** -/
theorem fromhex_isSome_iff (wide : Int) (h : Bytes) :
    (fromhex wide h).isSome ↔ ∀ p ∈ pairs h, Accepted wide p.1 p.2 := by
  induction h using List.twoStepInduction with
  | nil => exact iff_of_true rfl fun _ member => absurd member List.not_mem_nil
  | singleton => exact iff_of_true rfl fun _ member => absurd member List.not_mem_nil
  | cons_cons a b rest ih _ =>
    rw [pairs, List.forall_mem_cons, ← charOf_isSome_iff, ← ih, fromhex]
    cases charOf wide (tonumber16 [a, b]) with
    | none => exact iff_of_false Bool.false_ne_true fun both => Bool.false_ne_true both.1
    | some c =>
      cases fromhex wide rest with
      | none => exact iff_of_false Bool.false_ne_true fun both => Bool.false_ne_true both.2
      | some text => exact iff_of_true rfl ⟨rfl, rfl⟩

/-- The digit written for the value of a digit. -/
theorem hexDigit_of_hexValue (digit : hexValue a = some v) : hexDigit v = toUpper a := by
  have range := hexValue_range digit
  have bound := a.toNat_lt
  refine UInt8.toNat_inj.mp ?_
  rw [hexDigit, toUpper, UInt8.toNat_ofNat']
  by_cases lower : 97 ≤ a.toNat ∧ a.toNat ≤ 122
  · rw [if_pos lower, UInt8.toNat_ofNat', if_neg (by omega)]
    omega
  · rw [if_neg lower]
    by_cases small : v < 10
    · rw [if_pos small]
      omega
    · rw [if_neg small]
      omega

/-- **Digits come back in upper case.** -/
theorem fromhex_of_hexDigits (wide : Int) (h : Bytes) (even : h.length % 2 = 0)
    (digits : ∀ b ∈ h, (hexValue b).isSome) :
    ∃ text, fromhex wide h = some text ∧ tohex text = h.map toUpper := by
  induction h using List.twoStepInduction with
  | nil => exact ⟨[], rfl, rfl⟩
  | singleton => cases even
  | cons_cons a b rest ih _ =>
    rw [List.length_cons, List.length_cons] at even
    obtain ⟨text, read, written⟩ := ih (by omega) fun c member =>
      digits c (List.mem_cons_of_mem _ (List.mem_cons_of_mem _ member))
    obtain ⟨v, first⟩ := Option.isSome_iff_exists.mp (digits a List.mem_cons_self)
    obtain ⟨w, second⟩ := Option.isSome_iff_exists.mp
      (digits b (List.mem_cons_of_mem _ List.mem_cons_self))
    have high := hexValue_spec first
    have low := hexValue_spec second
    refine ⟨UInt8.ofNat (16 * v + w) :: text, ?_, ?_⟩
    · simp only [fromhex, charOf_digits first second, read]
    · have value : (UInt8.ofNat (16 * v + w)).toNat = 16 * v + w :=
        UInt8.toNat_ofNat_of_lt' (show 16 * v + w < 256 by omega)
      have quotient : (16 * v + w) / 16 = v := by omega
      have remainder : (16 * v + w) % 16 = w := by omega
      rw [tohex, List.flatMap_cons, ← tohex, written, hexPair, value, quotient, remainder,
        hexDigit_of_hexValue first, hexDigit_of_hexValue second]
      rfl

/-- **The codec**: `fromhex` reads back what `tohex` writes, it reads the texts of accepted pairs, and
digits come back in upper case. -/
theorem hexCodec (wide : Int) :
    (∀ text, fromhex wide (tohex text) = some text) ∧
      (∀ h, (fromhex wide h).isSome ↔ ∀ p ∈ pairs h, Accepted wide p.1 p.2) ∧
      ∀ h : Bytes, h.length % 2 = 0 → (∀ b ∈ h, (hexValue b).isSome) →
        ∃ text, fromhex wide h = some text ∧ tohex text = h.map toUpper :=
  ⟨fromhex_tohex wide, fromhex_isSome_iff wide, fromhex_of_hexDigits wide⟩

/-- **Not only digits are read**: an odd length, a blank, a sign and a line end pass. -/
theorem fromhex_lenient :
    fromhex 0 [70] = some [70] ∧ fromhex 0 [32, 70] = some [15] ∧ fromhex 0 [43, 70] = some [15] ∧
      fromhex 0 [70, 10] = some [15] ∧
      ¬ ∀ h, (fromhex 0 h).isSome → h.length % 2 = 0 ∧ ∀ b ∈ h, (hexValue b).isSome := by
  refine ⟨by decide, by decide, by decide, by decide, fun strict => ?_⟩
  have odd := (strict [70] (by decide)).1
  cases odd

end Text

end Bacteria.EncDec
