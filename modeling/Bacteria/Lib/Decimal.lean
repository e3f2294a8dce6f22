/-
**Decimal text: `%d`, `atoi`, dotted addresses.**

* `decimal n` — the digits `printf("%d")` and `ostream <<` write for a natural number, from
  `Nat.toDigits`; `atoi` — the C library's reader.
* `atoi_decimal` — reading back what was written, also with anything but a digit after it.
* `inetNtoa` — the dotted decimal text of an address; `inetNtoa_injective`: two addresses with one
  text are equal. `inetNtoa_length_le`, `inetNtoa_chars`: at most fifteen digits and dots.
* `htons` — the byte swap of a 16-bit number; `htons_htons`.
* `SockAddrIn` — `struct sockaddr_in` as the socket calls fill it in.
-/

import Bacteria.Lib.CString
import Mathlib.Tactic.IntervalCases

namespace Clib

/-! ### Numbers -/

/-- The byte of an ASCII character. -/
def charByte (c : Char) : Byte := UInt8.ofNat c.toNat

/-- The decimal digits of a number. -/
def decimal (n : Nat) : Bytes := (Nat.toDigits 10 n).map charByte

/-- `isdigit` in the C locale. -/
def isDigit (b : Byte) : Bool := 48 ≤ b.toNat && b.toNat ≤ 57

/-- `isspace` in the C locale. -/
def isSpace (b : Byte) : Bool := b.toNat == 32 || (9 ≤ b.toNat && b.toNat ≤ 13)

/-- The value of the digits at the start of a text. -/
def digitsValue (text : Bytes) : Nat :=
  (text.takeWhile isDigit).foldl (fun value digit => 10 * value + (digit.toNat - 48)) 0

/-- `atoi`: leading blanks, a sign, digits, and anything after them is left alone. -/
def atoi (text : Bytes) : Int :=
  match text.dropWhile isSpace with
  | [] => 0
  | b :: rest =>
    if b = 45 then -(digitsValue rest : Int)
    else if b = 43 then digitsValue rest
    else digitsValue (b :: rest)

theorem charByte_toNat {c : Char} (digit : c.isDigit) :
    (charByte c).toNat = c.toNat ∧ 48 ≤ c.toNat ∧ c.toNat ≤ 57 := by
  have bounds : 48 ≤ c.toNat ∧ c.toNat ≤ 57 := by
    simpa [Char.isDigit, UInt32.le_iff_toNat_le] using digit
  refine ⟨?_, bounds⟩
  rw [charByte, UInt8.toNat_ofNat']
  omega

/-- A decimal text is made of digits. -/
theorem decimal_digit {n : Nat} {b : Byte} (member : b ∈ decimal n) : isDigit b = true := by
  obtain ⟨c, inDigits, rfl⟩ := List.mem_map.mp member
  obtain ⟨value, low, high⟩ :=
    charByte_toNat (Nat.isDigit_of_mem_toDigits (by decide) (le_refl 10) inDigits)
  rw [isDigit, value]
  simp only [Bool.and_eq_true, decide_eq_true_eq]
  exact ⟨low, high⟩

theorem decimal_ne_nil (n : Nat) : decimal n ≠ [] := by
  simp [decimal, Nat.toDigits_ne_nil]

theorem decimal_length_le {n width : Nat} (positive : 0 < width) (bounded : n < 10 ^ width) :
    (decimal n).length ≤ width := by
  rw [decimal, List.length_map]
  exact (Nat.length_toDigits_le_iff (by decide) positive).mpr bounded

/-- The value of written digits is the number they were written for. -/
theorem foldl_decimal (n : Nat) :
    (decimal n).foldl (fun value digit => 10 * value + (digit.toNat - 48)) 0 = n := by
  have same : ∀ (chars : List Char) (init : Nat), (∀ c ∈ chars, c.isDigit) →
      (chars.map charByte).foldl (fun value digit => 10 * value + (digit.toNat - 48)) init =
        Nat.ofDigitChars 10 chars init := by
    intro chars
    induction chars with
    | nil => intro init _; rfl
    | cons c chars ih =>
      intro init digits
      rw [List.map_cons, List.foldl_cons, (charByte_toNat (digits c List.mem_cons_self)).1,
        ih _ fun d member => digits d (List.mem_cons_of_mem _ member), Nat.ofDigitChars_cons]
      rfl
  rw [decimal, same _ 0 fun c member => Nat.isDigit_of_mem_toDigits (by decide) (le_refl 10) member]
  exact Nat.ofDigitChars_ten_toDigits

theorem digitsValue_decimal (n : Nat) {rest : Bytes}
    (ends : ∀ b, rest.head? = some b → isDigit b = false) :
    digitsValue (decimal n ++ rest) = n := by
  have stop : rest.takeWhile isDigit = [] := by
    cases rest with
    | nil => rfl
    | cons b rest => simp [ends b rfl]
  rw [digitsValue, List.takeWhile_append_of_pos fun b member => decimal_digit member, stop,
    List.append_nil, foldl_decimal]

/-- **`atoi` reads back a written number**, whatever follows it short of a digit. -/
theorem atoi_decimal (n : Nat) {rest : Bytes}
    (ends : ∀ b, rest.head? = some b → isDigit b = false) : atoi (decimal n ++ rest) = n := by
  obtain ⟨b, digits, shape⟩ := List.exists_cons_of_ne_nil (decimal_ne_nil n)
  have digit : isDigit b = true := decimal_digit (n := n) (by rw [shape]; exact List.mem_cons_self)
  have bounds : 48 ≤ b.toNat ∧ b.toNat ≤ 57 := by simpa [isDigit] using digit
  have notSpace : isSpace b = false := by
    simp only [isSpace, Bool.or_eq_false_iff, beq_eq_false_iff_ne, Bool.and_eq_false_iff,
      decide_eq_false_iff_not]
    omega
  have notMinus : b ≠ 45 := fun same => by rw [same] at bounds; exact absurd bounds (by decide)
  have notPlus : b ≠ 43 := fun same => by rw [same] at bounds; exact absurd bounds (by decide)
  have skip : (decimal n ++ rest).dropWhile isSpace = b :: (digits ++ rest) := by
    rw [shape, List.cons_append, List.dropWhile_cons, notSpace]
    rfl
  rw [atoi, skip]
  simp only [if_neg notMinus, if_neg notPlus]
  rw [← List.cons_append, ← shape, digitsValue_decimal n ends]

theorem decimal_injective : Function.Injective decimal := by
  intro first second same
  rw [← foldl_decimal first, same, foldl_decimal]

/-- A byte that is no digit does not occur in a decimal text. -/
theorem notMem_decimal {b : Byte} (other : isDigit b = false) (n : Nat) : b ∉ decimal n := by
  intro member
  rw [decimal_digit member] at other
  cases other

/-- `%d` of a number that may be negative. -/
def decimalInt (n : Int) : Bytes :=
  if n < 0 then charByte '-' :: decimal n.natAbs else decimal n.natAbs

theorem notMem_decimalInt {b : Byte} (other : isDigit b = false) (minus : b ≠ charByte '-')
    (n : Int) : b ∉ decimalInt n := by
  unfold decimalInt
  split
  · rw [List.mem_cons, not_or]
    exact ⟨minus, notMem_decimal other _⟩
  · exact notMem_decimal other _

/-- A 32-bit number takes at most eleven characters. -/
theorem decimalInt_length_le (n : Int32) : (decimalInt n.toInt).length ≤ 11 := by
  have low := n.le_toInt
  have high := n.toInt_lt
  have digits : (decimal n.toInt.natAbs).length ≤ 10 :=
    decimal_length_le (by decide) (by omega)
  unfold decimalInt
  split
  · rw [List.length_cons]
    omega
  · omega

/-! ### Addresses -/

/-- `struct sockaddr_in`: the fields the socket calls fill in, in network byte order. -/
structure SockAddrIn where
  sinFamily : UInt16
  sinPort : UInt16
  sAddr : UInt32
deriving DecidableEq

/-- `htons` on a little-endian host: the two bytes change places. -/
def htons (port : UInt16) : UInt16 :=
  UInt16.ofNat (port.toNat % 256 * 256 + port.toNat / 256)

theorem htons_htons (port : UInt16) : htons (htons port) = port := by
  apply UInt16.toNat_inj.mp
  have bound := port.toNat_lt
  have high : port.toNat / 256 < 256 := by omega
  have swapped : port.toNat % 256 * 256 + port.toNat / 256 < 2 ^ 16 := by omega
  have first : (port.toNat % 256 * 256 + port.toNat / 256) % 256 = port.toNat / 256 := by omega
  have second : (port.toNat % 256 * 256 + port.toNat / 256) / 256 = port.toNat % 256 := by omega
  have inner : (htons port).toNat = port.toNat % 256 * 256 + port.toNat / 256 := by
    rw [htons, UInt16.toNat_ofNat', Nat.mod_eq_of_lt swapped]
  rw [htons, UInt16.toNat_ofNat', inner, first, second, Nat.div_add_mod']
  exact Nat.mod_eq_of_lt bound

theorem htons_injective : Function.Injective htons := by
  intro first second same
  rw [← htons_htons first, same, htons_htons]

/-- One byte of an address, in memory order. -/
def addrByte (sAddr : UInt32) (index : Nat) : Nat := sAddr.toNat / 256 ^ index % 256

/-- `inet_ntoa`: the four bytes of the address in decimal, with dots between them. -/
def inetNtoa (sAddr : UInt32) : Bytes :=
  decimal (addrByte sAddr 0) ++ charByte '.' :: (decimal (addrByte sAddr 1) ++
    charByte '.' :: (decimal (addrByte sAddr 2) ++ charByte '.' :: decimal (addrByte sAddr 3)))

theorem addrByte_lt (sAddr : UInt32) (index : Nat) : addrByte sAddr index < 256 :=
  Nat.mod_lt _ (by decide)

theorem addrBytes_injective {first second : UInt32}
    (same : ∀ index < 4, addrByte first index = addrByte second index) : first = second := by
  apply UInt32.toNat_inj.mp
  have firstBound := first.toNat_lt
  have secondBound := second.toNat_lt
  have zero := same 0 (by decide)
  have one := same 1 (by decide)
  have two := same 2 (by decide)
  have three := same 3 (by decide)
  simp only [addrByte, Nat.reducePow] at zero one two three
  omega

/-- A decimal text is read off up to the first byte that is no digit. -/
theorem decimal_append_cons_inj {b : Byte} (other : isDigit b = false) {first second : Nat}
    {rest rest' : Bytes} (same : decimal first ++ b :: rest = decimal second ++ b :: rest') :
    first = second ∧ rest = rest' := by
  have here := cut_append (notMem_decimal other first) rest
  rw [same, cut_append (notMem_decimal other second)] at here
  obtain ⟨digits, rests⟩ := Prod.mk.inj (Option.some.inj here)
  exact ⟨decimal_injective digits.symm, rests.symm⟩

/-- **An address is determined by its text.** -/
theorem inetNtoa_injective : Function.Injective inetNtoa := by
  intro first second same
  obtain ⟨zero, same⟩ := decimal_append_cons_inj (by decide) same
  obtain ⟨one, same⟩ := decimal_append_cons_inj (by decide) same
  obtain ⟨two, same⟩ := decimal_append_cons_inj (by decide) same
  have three := decimal_injective same
  refine addrBytes_injective fun index bound => ?_
  interval_cases index <;> assumption

/-- A dotted address is at most fifteen bytes long. -/
theorem inetNtoa_length_le (sAddr : UInt32) : (inetNtoa sAddr).length ≤ 15 := by
  have part : ∀ index, (decimal (addrByte sAddr index)).length ≤ 3 := fun index =>
    decimal_length_le (by decide) (lt_trans (addrByte_lt sAddr index) (by decide))
  have zero := part 0
  have one := part 1
  have two := part 2
  have three := part 3
  simp only [inetNtoa, List.length_append, List.length_cons]
  omega

/-- A dotted address is made of digits and dots. -/
theorem inetNtoa_chars {sAddr : UInt32} {b : Byte} (member : b ∈ inetNtoa sAddr) :
    isDigit b = true ∨ b = charByte '.' := by
  simp only [inetNtoa, List.mem_append, List.mem_cons] at member
  rcases member with here | here | here | here | here | here | here
  · exact Or.inl (decimal_digit here)
  · exact Or.inr here
  · exact Or.inl (decimal_digit here)
  · exact Or.inr here
  · exact Or.inl (decimal_digit here)
  · exact Or.inr here
  · exact Or.inl (decimal_digit here)

/-- A byte that is neither a digit nor a dot does not occur in a dotted address. -/
theorem notMem_inetNtoa {b : Byte} (other : isDigit b = false) (dot : b ≠ charByte '.')
    (sAddr : UInt32) : b ∉ inetNtoa sAddr := by
  intro member
  rcases inetNtoa_chars member with digit | same
  · rw [digit] at other
    cases other
  · exact dot same

end Clib
