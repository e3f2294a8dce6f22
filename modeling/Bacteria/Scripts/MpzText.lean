/-
**Integers of a script as text: `lgmp.mpz_getstr` and `lgmp.mpz_init_str`.**

src/libbacteria/lua/libgmp.c. The script gives the size of the buffer the text is written to.

* `Mpz` — `gmp_snprintf` for `%Zd` and `mpz_init_set_str` for base 0; `Mpz.Lawful` — what is relied on.
* `mpzGetstr`, `mpzInitStr` — the bindings.
* `decimal_take` — the first digits of a number are the digits of a quotient.
* `mpzInitStr_mpzGetstr` — a text that was cut reads back as the number cut towards zero.
-/

import Bacteria.Lib.Decimal
import Mathlib.Algebra.Order.Ring.Int

namespace Bacteria.Scripts

open Clib

/-! ### The bindings -/

/-- The two calls of GMP. -/
structure Mpz where
  /-- What `gmp_snprintf(buf, size, "%Zd", z)` leaves in `buf`, up to its terminator. -/
  snprintf : Nat → Int → Bytes
  /-- The number after `mpz_init_set_str(rop, text, 0)`. -/
  initSetStr : Bytes → Int

/-- **What is relied on**: at most `size - 1` characters are written, and decimal texts are read. -/
structure Mpz.Lawful (mpz : Mpz) : Prop where
  snprintf : ∀ size z, mpz.snprintf size z = (decimalInt z).take (size - 1)
  natural : ∀ n : Nat, mpz.initSetStr (decimal n) = n
  negative : ∀ n : Nat, mpz.initSetStr (charByte '-' :: decimal n) = -n

/-- `lgmp.mpz_getstr`: the text is written to `char buf[c]`; without a positive `c` there is no such
array. -/
def mpzGetstr (mpz : Mpz) (z : Int) (c : Int32) : Option Bytes :=
  if 0 < c.toInt then some (cstr (mpz.snprintf c.toInt.toNat z)).bytes else none

/-- `lgmp.mpz_init_str`. -/
def mpzInitStr (mpz : Mpz) (val : Bytes) : Int := mpz.initSetStr (cstr val).bytes

/-! ### The first digits of a number -/

/-- **Cutting the last digits** divides by a power of ten. -/
theorem toDigits_take {n cut : Nat} (short : cut < (Nat.toDigits 10 n).length) :
    (Nat.toDigits 10 n).take ((Nat.toDigits 10 n).length - cut) = Nat.toDigits 10 (n / 10 ^ cut) := by
  induction cut generalizing n with
  | zero => rw [Nat.sub_zero, List.take_length, Nat.pow_zero, Nat.div_one]
  | succ cut ih =>
    have large : 10 ≤ n := by
      by_contra small
      rw [Nat.toDigits_of_lt_base (by omega), List.length_singleton] at short
      omega
    have split := Nat.toDigits_of_base_le (show 1 < 10 by decide) large
    have length : (Nat.toDigits 10 n).length = (Nat.toDigits 10 (n / 10)).length + 1 := by
      rw [split, List.length_append, List.length_singleton]
    have power : n / 10 ^ (cut + 1) = n / 10 / 10 ^ cut := by
      rw [Nat.pow_succ', Nat.div_div_eq_div_mul]
    have inside : (Nat.toDigits 10 (n / 10)).length - cut ≤ (Nat.toDigits 10 (n / 10)).length :=
      Nat.sub_le _ _
    rw [length, Nat.add_sub_add_right, split, List.take_append_of_le_length inside, ih (by omega), power]

/-- **The first digits of a number**. -/
theorem decimal_take {n cut : Nat} (short : cut < (decimal n).length) :
    (decimal n).take ((decimal n).length - cut) = decimal (n / 10 ^ cut) := by
  rw [decimal, List.length_map] at short
  rw [decimal, List.length_map, ← List.map_take, toDigits_take short, decimal]

/-- A digit or more that is cut off a number changes it. -/
theorem div_pow_ne {n cut : Nat} (short : cut < (decimal n).length) (positive : 0 < cut) :
    n / 10 ^ cut ≠ n := by
  intro same
  have whole := decimal_take short
  rw [same] at whole
  have lengths := congrArg List.length whole
  rw [List.length_take] at lengths
  omega

/-- The first digits of a number, however many there are. -/
theorem take_decimal {n k : Nat} (positive : 0 < k) :
    (decimal n).take k = decimal (n / 10 ^ ((decimal n).length - k)) := by
  have digits := List.length_pos_iff.mpr (decimal_ne_nil n)
  by_cases inside : k ≤ (decimal n).length
  · have same : (decimal n).length - ((decimal n).length - k) = k := by omega
    have cut := @decimal_take n ((decimal n).length - k) (by omega)
    rwa [same] at cut
  · have none : (decimal n).length - k = 0 := by omega
    rw [none, Nat.pow_zero, Nat.div_one, List.take_of_length_le (by omega)]

/-- **It is the number itself** exactly if no digit is cut off. -/
theorem div_length_iff {n k : Nat} (positive : 0 < k) :
    n / 10 ^ ((decimal n).length - k) = n ↔ (decimal n).length ≤ k := by
  have digits := List.length_pos_iff.mpr (decimal_ne_nil n)
  constructor
  · intro same
    by_contra long
    exact div_pow_ne (show (decimal n).length - k < (decimal n).length by omega) (by omega) same
  · intro short
    rw [Nat.sub_eq_zero_of_le short, Nat.pow_zero, Nat.div_one]

/-! ### Reading a cut text -/

section Reading

variable {mpz : Mpz}

/-- The characters a sign takes. -/
def signLength (z : Int) : Nat := if z < 0 then 1 else 0

theorem mpzGetstr_eq (lawful : mpz.Lawful) (z : Int) {c : Int32} (positive : 0 < c.toInt) :
    mpzGetstr mpz z c = some ((decimalInt z).take (c.toInt.toNat - 1)) := by
  have clean : (0 : Byte) ∉ (decimalInt z).take (c.toInt.toNat - 1) := fun member =>
    notMem_decimalInt (by decide) (by decide) z (List.mem_of_mem_take member)
  rw [mpzGetstr, if_pos positive, lawful.snprintf, (cstr_eq_iff _).mpr clean]

theorem natCast_div_pow (n cut : Nat) : ((n / 10 ^ cut : Nat) : Int) = (n : Int).tdiv (10 ^ cut) := by
  rw [Int.natCast_tdiv_eq_ediv]
  push_cast
  rfl

/-- A text of a number that is not negative. -/
theorem read_natural (lawful : mpz.Lawful) {z : Int} (natural : 0 ≤ z) {k : Nat} (positive : 0 < k) :
    mpzInitStr mpz ((decimalInt z).take k) = z.tdiv (10 ^ ((decimalInt z).length - k)) ∧
      (mpzInitStr mpz ((decimalInt z).take k) = z ↔ (decimalInt z).length ≤ k) := by
  obtain ⟨n, rfl⟩ := Int.eq_ofNat_of_zero_le natural
  have text : decimalInt (n : Int) = decimal n := by
    rw [decimalInt, if_neg (by omega), Int.natAbs_natCast]
  have whole := (cstr_eq_iff (decimal (n / 10 ^ ((decimal n).length - k)))).mpr
    (notMem_decimal (by decide) _)
  have read : mpzInitStr mpz ((decimal n).take k) = (n / 10 ^ ((decimal n).length - k) : Nat) := by
    rw [mpzInitStr, take_decimal positive, whole, lawful.natural]
  rw [text, read]
  exact ⟨natCast_div_pow _ _, Int.natCast_inj.trans (div_length_iff positive)⟩

/-- A text of a negative number, with one digit at least. -/
theorem read_negative (lawful : mpz.Lawful) {z : Int} (negative : z < 0) {k : Nat}
    (positive : 1 < k) :
    mpzInitStr mpz ((decimalInt z).take k) = z.tdiv (10 ^ ((decimalInt z).length - k)) ∧
      (mpzInitStr mpz ((decimalInt z).take k) = z ↔ (decimalInt z).length ≤ k) := by
  obtain ⟨n, rfl⟩ : ∃ n : Nat, z = -(n : Int) := ⟨z.natAbs, by omega⟩
  obtain ⟨digits, rfl⟩ : ∃ digits, k = digits + 1 := ⟨k - 1, by omega⟩
  have text : decimalInt (-(n : Int)) = charByte '-' :: decimal n := by
    rw [decimalInt, if_pos negative, Int.natAbs_neg, Int.natAbs_natCast]
  have clean : (0 : Byte) ∉ charByte '-' :: decimal (n / 10 ^ ((decimal n).length - digits)) := by
    rw [List.mem_cons, not_or]
    exact ⟨by decide, notMem_decimal (by decide) _⟩
  have read : mpzInitStr mpz ((charByte '-' :: decimal n).take (digits + 1)) =
      -((n / 10 ^ ((decimal n).length - digits) : Nat) : Int) := by
    rw [mpzInitStr, List.take_succ_cons, take_decimal (by omega), (cstr_eq_iff _).mpr clean,
      lawful.negative]
  rw [text, read, List.length_cons, Nat.add_sub_add_right, Int.neg_tdiv, ← natCast_div_pow]
  refine ⟨rfl, neg_inj.trans (Int.natCast_inj.trans ?_)⟩
  rw [div_length_iff (by omega)]
  omega

/-- **What a script reads back of a number it wrote**: the number cut towards zero to the digits for which
the buffer has room, and the number itself exactly if the buffer holds the whole text. -/
theorem mpzInitStr_mpzGetstr (lawful : mpz.Lawful) (z : Int) {c : Int32}
    (room : signLength z + 2 ≤ c.toInt) :
    ∃ text, mpzGetstr mpz z c = some text ∧
      mpzInitStr mpz text = z.tdiv (10 ^ ((decimalInt z).length + 1 - c.toInt.toNat)) ∧
      (mpzInitStr mpz text = z ↔ (decimalInt z).length < c.toInt.toNat) := by
  refine ⟨_, mpzGetstr_eq lawful z (by omega), ?_⟩
  have read : mpzInitStr mpz ((decimalInt z).take (c.toInt.toNat - 1)) =
        z.tdiv (10 ^ ((decimalInt z).length - (c.toInt.toNat - 1))) ∧
      (mpzInitStr mpz ((decimalInt z).take (c.toInt.toNat - 1)) = z ↔
        (decimalInt z).length ≤ c.toInt.toNat - 1) := by
    by_cases negative : z < 0
    · rw [signLength, if_pos negative] at room
      exact read_negative lawful negative (by omega)
    · rw [signLength, if_neg negative] at room
      exact read_natural lawful (by omega) (by omega)
  have cut : (decimalInt z).length - (c.toInt.toNat - 1) =
      (decimalInt z).length + 1 - c.toInt.toNat := by omega
  rw [← cut]
  exact ⟨read.1, read.2.trans (by omega)⟩

end Reading

/-! ### A number of a script -/

/-- The text of a number as far as it goes, and a reader of decimal digits behind a sign. -/
def decimalMpz : Mpz where
  snprintf size z := (decimalInt z).take (size - 1)
  initSetStr text := if text.head? = some (charByte '-') then -(digitsValue text.tail : Int)
    else digitsValue text

theorem decimalMpz_lawful : decimalMpz.Lawful where
  snprintf _ _ := rfl
  natural n := by
    have value := @digitsValue_decimal n [] (fun b none => by cases none)
    have unsigned : (decimal n).head? ≠ some (charByte '-') := fun signed =>
      notMem_decimal (by decide) n (List.mem_of_head? signed)
    rw [List.append_nil] at value
    show (if (decimal n).head? = some (charByte '-') then _ else _) = _
    rw [if_neg unsigned, value]
  negative n := by
    have value := @digitsValue_decimal n [] (fun b none => by cases none)
    rw [List.append_nil] at value
    show (if (charByte '-' :: decimal n).head? = some (charByte '-') then
      -(digitsValue (decimal n) : Int) else (digitsValue (charByte '-' :: decimal n) : Int)) = _
    rw [if_pos (List.head?_cons ..), value]

/-- The number of the script's own test, in a buffer for two digits of it. -/
theorem mpzInitStr_mpzGetstr_sample :
    ∃ text, mpzGetstr decimalMpz (-180) 4 = some text ∧ mpzInitStr decimalMpz text = -18 ∧
      mpzInitStr decimalMpz text ≠ -180 := by
  obtain ⟨text, written, cut, whole⟩ :=
    @mpzInitStr_mpzGetstr decimalMpz decimalMpz_lawful (-180) 4 (by decide)
  exact ⟨text, written, by rw [cut]; decide, whole.not.mpr (by decide)⟩

end Bacteria.Scripts
