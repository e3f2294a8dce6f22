/-
**Base64.**

* `digit`, `digitValue?` — the alphabet of 64 characters, and back.
* `encode` — three bytes in four characters, the last group padded; `decode` — back.
* `decode_encode` — nothing is lost. `encode_length`, `encode_ends` — how long the text is, and when it
  ends with padding; `zero_notMem_encode` — it has no NUL.
* `Base64Bio` — the base64 filter of OpenSSL, as far as it reads.
-/

import Bacteria.Lib.CString
import Mathlib.Algebra.Order.Ring.Int

namespace Clib

namespace Base64

/-- The padding. -/
def pad : Byte := 61

/-- The character of a value below 64: upper case, lower case, digits, `+` and `/`. -/
def digit (value : Nat) : Byte :=
  UInt8.ofNat (if value < 26 then 65 + value else if value < 52 then 71 + value
    else if value < 62 then value - 4 else if value = 62 then 43 else 47)

/-- The value of a character. -/
def digitValue? (b : Byte) : Option Nat :=
  let code := b.toNat
  if 65 ≤ code ∧ code ≤ 90 then some (code - 65)
  else if 97 ≤ code ∧ code ≤ 122 then some (code - 71)
  else if 48 ≤ code ∧ code ≤ 57 then some (code + 4)
  else if code = 43 then some 62
  else if code = 47 then some 63
  else none

/-- The text of a byte string: the bits of three bytes in four characters, from the high end. -/
def encode : Bytes → Bytes
  | [] => []
  | [a] =>
    let n := a.toNat * 16
    [digit (n / 64), digit (n % 64), pad, pad]
  | [a, b] =>
    let n := (a.toNat * 256 + b.toNat) * 4
    [digit (n / 4096), digit (n / 64 % 64), digit (n % 64), pad]
  | a :: b :: c :: rest =>
    let n := (a.toNat * 256 + b.toNat) * 256 + c.toNat
    digit (n / 262144) :: digit (n / 4096 % 64) :: digit (n / 64 % 64) :: digit (n % 64) ::
      encode rest

/-- The byte of a group of two characters. -/
def decodeOne (a b : Byte) : Option Bytes := do
  let n := (← digitValue? a) * 64 + (← digitValue? b)
  return [UInt8.ofNat (n / 16)]

/-- The bytes of a group of three characters. -/
def decodeTwo (a b c : Byte) : Option Bytes := do
  let n := ((← digitValue? a) * 64 + (← digitValue? b)) * 64 + (← digitValue? c)
  return [UInt8.ofNat (n / 1024), UInt8.ofNat (n / 4 % 256)]

/-- The bytes of a group of four characters. -/
def decodeThree (a b c d : Byte) : Option Bytes := do
  let n := (((← digitValue? a) * 64 + (← digitValue? b)) * 64 + (← digitValue? c)) * 64 +
    (← digitValue? d)
  return [UInt8.ofNat (n / 65536), UInt8.ofNat (n / 256 % 256), UInt8.ofNat (n % 256)]

/-- The byte string of a text, `none` when it is no base64. -/
def decode : Bytes → Option Bytes
  | [] => some []
  | a :: b :: c :: d :: rest =>
    if rest = [] ∧ d = pad then if c = pad then decodeOne a b else decodeTwo a b c
    else do return (← decodeThree a b c d) ++ (← decode rest)
  | _ => none

theorem digitValue?_digit : ∀ value < 64, digitValue? (digit value) = some value := by decide

theorem digit_ne_pad : ∀ value < 64, digit value ≠ pad := by decide

theorem zero_ne_digit : ∀ value < 64, 0 ≠ digit value := by decide

theorem decodeOne_digits {p q : Nat} (first : p < 64) (second : q < 64) :
    decodeOne (digit p) (digit q) = some [UInt8.ofNat ((p * 64 + q) / 16)] := by
  rw [decodeOne, digitValue?_digit p first, digitValue?_digit q second]
  rfl

theorem decodeTwo_digits {p q r : Nat} (first : p < 64) (second : q < 64) (third : r < 64) :
    decodeTwo (digit p) (digit q) (digit r) =
      some [UInt8.ofNat (((p * 64 + q) * 64 + r) / 1024),
        UInt8.ofNat (((p * 64 + q) * 64 + r) / 4 % 256)] := by
  rw [decodeTwo, digitValue?_digit p first, digitValue?_digit q second, digitValue?_digit r third]
  rfl

theorem decodeThree_digits {p q r t : Nat} (first : p < 64) (second : q < 64) (third : r < 64)
    (fourth : t < 64) :
    decodeThree (digit p) (digit q) (digit r) (digit t) =
      some [UInt8.ofNat ((((p * 64 + q) * 64 + r) * 64 + t) / 65536),
        UInt8.ofNat ((((p * 64 + q) * 64 + r) * 64 + t) / 256 % 256),
        UInt8.ofNat ((((p * 64 + q) * 64 + r) * 64 + t) % 256)] := by
  rw [decodeThree, digitValue?_digit p first, digitValue?_digit q second, digitValue?_digit r third,
    digitValue?_digit t fourth]
  rfl

/-- A byte from its value. -/
theorem ofNat_eq {n : Nat} {b : Byte} (same : n = b.toNat) : UInt8.ofNat n = b := by
  rw [same, UInt8.ofNat_toNat]

/-- **Nothing is lost.** -/
theorem decode_encode (data : Bytes) : decode (encode data) = some data := by
  induction data using encode.induct with
  | case1 => rfl
  | case2 a =>
    have small := a.toNat_lt
    rw [encode, decode, if_pos ⟨rfl, rfl⟩, if_pos rfl, decodeOne_digits (by omega) (by omega),
      ofNat_eq (b := a) (by omega)]
  | case3 a b =>
    have small := a.toNat_lt
    have other := b.toNat_lt
    rw [encode, decode, if_pos ⟨rfl, rfl⟩, if_neg (digit_ne_pad _ (by omega)),
      decodeTwo_digits (by omega) (by omega) (by omega), ofNat_eq (b := a) (by omega),
      ofNat_eq (b := b) (by omega)]
  | case4 a b c rest ih =>
    have small := a.toNat_lt
    have other := b.toNat_lt
    have third := c.toNat_lt
    rw [encode, decode, if_neg fun last => digit_ne_pad _ (by omega) last.2,
      decodeThree_digits (by omega) (by omega) (by omega) (by omega), ih,
      ofNat_eq (b := a) (by omega), ofNat_eq (b := b) (by omega), ofNat_eq (b := c) (by omega)]
    rfl

/-- **How long the text is.** -/
theorem encode_length (data : Bytes) : (encode data).length = 4 * ((data.length + 2) / 3) := by
  induction data using encode.induct with
  | case1 => rfl
  | case2 a => simp [encode]
  | case3 a b => simp [encode]
  | case4 a b c rest ih =>
    simp only [encode, List.length_cons, ih]
    omega

theorem zero_notMem_encode (data : Bytes) : (0 : Byte) ∉ encode data := by
  induction data using encode.induct with
  | case1 => exact List.not_mem_nil
  | case2 a =>
    have small := a.toNat_lt
    simp only [encode, List.mem_cons, List.not_mem_nil, or_false, not_or]
    exact ⟨zero_ne_digit _ (by omega), zero_ne_digit _ (by omega), by decide,
      by decide⟩
  | case3 a b =>
    have small := a.toNat_lt
    have other := b.toNat_lt
    simp only [encode, List.mem_cons, List.not_mem_nil, or_false, not_or]
    exact ⟨zero_ne_digit _ (by omega), zero_ne_digit _ (by omega),
      zero_ne_digit _ (by omega), by decide⟩
  | case4 a b c rest ih =>
    have small := a.toNat_lt
    have other := b.toNat_lt
    have third := c.toNat_lt
    simp only [encode, List.mem_cons, not_or]
    exact ⟨zero_ne_digit _ (by omega), zero_ne_digit _ (by omega),
      zero_ne_digit _ (by omega), zero_ne_digit _ (by omega), ih⟩

/-- **When the text ends with padding**: with one character after two bytes, with two after one. -/
theorem encode_ends {data : Bytes} (some : data ≠ []) :
    ∃ front x y, encode data = front ++ [x, y] ∧ (y = pad ↔ data.length % 3 ≠ 0) ∧
      (x = pad ↔ data.length % 3 = 1) := by
  induction data using encode.induct with
  | case1 => exact absurd rfl some
  | case2 a =>
    rw [encode]
    exact ⟨[_, _], pad, pad, rfl, iff_of_true rfl (Nat.succ_ne_zero 0), iff_of_true rfl rfl⟩
  | case3 a b =>
    have small := a.toNat_lt
    have other := b.toNat_lt
    rw [encode]
    refine ⟨[_, _], _, pad, rfl, iff_of_true rfl (Nat.succ_ne_zero 1), ?_⟩
    exact iff_of_false (digit_ne_pad _ (by omega)) (Nat.succ_ne_self 1)
  | case4 a b c rest ih =>
    by_cases last : rest = []
    · have small := a.toNat_lt
      have other := b.toNat_lt
      have third := c.toNat_lt
      rw [last, encode, encode]
      refine ⟨[_, _], _, _, rfl, ?_, ?_⟩
      · exact iff_of_false (digit_ne_pad _ (by omega)) (by simp)
      · exact iff_of_false (digit_ne_pad _ (by omega)) (by simp)
    · obtain ⟨front, x, y, shape, second, first⟩ := ih last
      have same : (a :: b :: c :: rest).length % 3 = rest.length % 3 := by
        simp only [List.length_cons]
        omega
      rw [same, encode, shape]
      exact ⟨_ :: _ :: _ :: _ :: front, x, y, rfl, second, first⟩

end Base64

/-- The base64 filter without newlines in front of a memory buffer, as far as it reads. -/
structure Base64Bio where
  /-- What `BIO_read` gives of a text. -/
  read : Bytes → Bytes

/-- It decodes what is base64. -/
structure Base64Bio.Lawful (bio : Base64Bio) : Prop where
  read_of_decode : ∀ text data, Base64.decode text = some data → bio.read text = data

/-- A filter that reads nothing from any other text. -/
def Base64Bio.standard : Base64Bio where
  read text := (Base64.decode text).getD []

theorem Base64Bio.standard_lawful : Base64Bio.standard.Lawful where
  read_of_decode text data decoded := by
    simp only [standard, decoded, Option.getD_some]

example : Base64.encode (ascii "Man!") = ascii "TWFuIQ==" := by decide

end Clib
