/-
**The hashes: one macro for two digests, and four wrappers.**

`INITHASHFUNC` of libbacteria/macros.h, libbacteria/encdec/hashes.c, `lua_toSHA256` and `lua_toSHA512` of
libbacteria/lua/libencdec.c, and the `SHA256` and `SHA512` of src/protocolcxx/encdec.cpp that take a
`std::string`.

* `printHash` — the loop of `sprintf`; `initHashFunc` — the macro; `Hasher` — the wrappers.
* `printHash_holds` — the loop writes the digits and one terminator.
* `run_text` — a result is the digest of the bytes before the first NUL.
* `HashesWhole` — what a wrapper is for; `not_hashesWhole` — the macro closes its text a second time,
  behind the array.
-/

import Bacteria.Lib.Block
import Bacteria.Lib.Sha2

namespace Bacteria.EncDec

open Clib

/-- A lower case hexadecimal digit. -/
def lowerDigit (value : Nat) : Byte := UInt8.ofNat (if value < 10 then 48 + value else 87 + value)

/-- `%02x` of an `unsigned char`. -/
def lowerHex (b : Byte) : Bytes := [lowerDigit (b.toNat / 16), lowerDigit (b.toNat % 16)]

/-- The hexadecimal text of a byte string. -/
def hexText (bytes : Bytes) : Bytes := bytes.flatMap lowerHex

/-- The loop over `i`, with the bytes from `hash[i]` on. -/
def printHash : Nat → Bytes → Block → Block
  | _, [], outputstring => outputstring
  | i, b :: hash, outputstring =>
    printHash (i + 1) hash (outputstring.write (i * 2) (lowerHex b ++ [0]))

/-- `INITHASHFUNC(name, outputstringsize)`: it hashes `strlen(data)` bytes. -/
def initHashFunc (name : Sha2.Params) (outputstringsize : Nat) (data : CString)
    (outputstring : Block) : Block :=
  (printHash 0 (Sha2.digest name data.bytes) outputstring).write outputstringsize [0]

def toSHA256 (data : CString) (outputstring : Block) : Block :=
  initHashFunc .sha256 65 data outputstring

def toSHA512 (data : CString) (outputstring : Block) : Block :=
  initHashFunc .sha512 129 data outputstring

/-- `SHA256_OUTPUTSTRING_SIZE`. -/
def sha256OutputstringSize : Nat := 65

/-- `SHA512_OUTPUTSTRING_SIZE`. -/
def sha512OutputstringSize : Nat := 129

/-- What a wrapper leaves: its array, and the string it makes of it. -/
structure Hashed where
  outputstring : Block
  text : Option Bytes

/-- `lua_pushstring`, `std::string{outputstring}`. -/
def Hashed.ofOutput (outputstring : Block) : Hashed := ⟨outputstring, outputstring.cString?⟩

def luaToSHA512 (s : Bytes) : Hashed :=
  .ofOutput (toSHA512 (cstr s) (Block.malloc sha512OutputstringSize))

def luaToSHA256 (s : Bytes) : Hashed :=
  .ofOutput (toSHA256 (cstr s) (Block.malloc sha256OutputstringSize))

/-- `SHA512(std::string &)`, which passes `c_str()` on. -/
def cxxSHA512 (data : Bytes) : Hashed :=
  .ofOutput (toSHA512 (cstr data) (Block.malloc sha512OutputstringSize))

/-- `SHA256(std::string &)`. -/
def cxxSHA256 (data : Bytes) : Hashed :=
  .ofOutput (toSHA256 (cstr data) (Block.malloc sha256OutputstringSize))

/-- The wrappers. -/
inductive Hasher where
  | luaToSHA256
  | luaToSHA512
  | cxxSHA256
  | cxxSHA512

namespace Hasher

def run : Hasher → Bytes → Hashed
  | luaToSHA256 => EncDec.luaToSHA256
  | luaToSHA512 => EncDec.luaToSHA512
  | cxxSHA256 => EncDec.cxxSHA256
  | cxxSHA512 => EncDec.cxxSHA512

/-- The hash function it is named after. -/
def name : Hasher → Sha2.Params
  | luaToSHA256 => .sha256
  | luaToSHA512 => .sha512
  | cxxSHA256 => .sha256
  | cxxSHA512 => .sha512

end Hasher

/-- **What a wrapper is for**: the text of the digest of the whole string, written below the size of the
array. -/
structure HashesWhole (hasher : Hasher) (s : Bytes) : Prop where
  covers : (hasher.run s).text = some (hexText (Sha2.digest hasher.name s))
  below : (hasher.run s).outputstring.InBounds

section Printing

theorem hexText_length (bytes : Bytes) : (hexText bytes).length = 2 * bytes.length := by
  induction bytes with
  | nil => rfl
  | cons b bytes ih =>
    rw [hexText, List.flatMap_cons, List.length_append, ← hexText, ih, List.length_cons]
    exact Nat.add_comm 2 _

theorem lowerDigit_ne_zero : ∀ value < 16, lowerDigit value ≠ 0 := by decide

/-- Every digit of a byte is one. -/
theorem zero_notMem_hexText (bytes : Bytes) : (0 : Byte) ∉ hexText bytes := by
  intro member
  obtain ⟨b, _, digit⟩ := List.mem_flatMap.mp member
  have small := b.toNat_lt
  simp only [lowerHex, List.mem_cons, List.not_mem_nil, or_false] at digit
  rcases digit with high | low
  · exact lowerDigit_ne_zero _ (by omega) high.symm
  · exact lowerDigit_ne_zero _ (by omega) low.symm

/-- **What the loop writes**: the digits behind what is there, and one terminator. -/
theorem printHash_holds {outputstring : Block} {text : Bytes} (holds : outputstring.Holds 0 text)
    {i : Nat} (behind : i * 2 = text.length) (b : Byte) (hash : Bytes) :
    (printHash i (b :: hash) outputstring).Holds 0 (text ++ hexText (b :: hash) ++ [0]) := by
  have written := holds.write_append behind (lowerHex b ++ [0])
  rw [← List.append_assoc] at written
  rw [printHash, hexText, List.flatMap_cons]
  induction hash generalizing outputstring text i b with
  | nil => rwa [List.flatMap_nil, List.append_nil]
  | cons c hash ih =>
    have next : (i + 1) * 2 = (text ++ lowerHex b).length := by
      rw [List.length_append, ← behind]
      exact Nat.succ_mul i 2
    have more := written.left.write_append next (lowerHex c ++ [0])
    rw [← List.append_assoc] at more
    have rest := ih written.left next c more
    rwa [List.append_assoc text] at rest

theorem printHash_size (i : Nat) (hash : Bytes) (outputstring : Block) :
    (printHash i hash outputstring).size = outputstring.size := by
  induction hash generalizing i outputstring with
  | nil => rfl
  | cons b hash ih => rw [printHash, ih, Block.write_size]

end Printing

section Macro

variable {name : Sha2.Params} {size : Nat} {data : CString}

/-- The text that the macro leaves in an array of `size` bytes, one of them for the terminator. -/
theorem initHashFunc_text (words : 0 < name.wordSize) (exact : size = 16 * name.wordSize + 1) :
    (initHashFunc name size data (Block.malloc size)).cString? =
      some (hexText (Sha2.digest name data.bytes)) := by
  have length := Sha2.digest_length name data.bytes
  cases hash : Sha2.digest name data.bytes with
  | nil =>
    rw [hash, List.length_nil] at length
    omega
  | cons b rest =>
    have holds := printHash_holds (Block.holds_nil (Block.malloc size) 0) (Nat.zero_mul 2) b rest
    rw [List.nil_append] at holds
    have digits : (hexText (b :: rest)).length = 16 * name.wordSize := by
      rw [hexText_length, ← hash, length, ← Nat.mul_assoc]
    rw [initHashFunc, hash]
    refine Block.cString?_of_holds (zero_notMem_hexText _) ?_ ?_
    · refine Block.holds_write_of_disjoint holds (Or.inl ?_)
      rw [List.length_append, digits, exact]
      exact le_of_eq (Nat.zero_add _)
    · rw [Block.write_size, printHash_size, Block.malloc_size, digits, exact]
      exact Nat.lt_succ_self _

/-- **The macro closes its text behind the array**, whatever it hashes. -/
theorem initHashFunc_overruns : ¬ (initHashFunc name size data (Block.malloc size)).InBounds := by
  rw [initHashFunc, Block.inBounds_write, printHash_size, Block.malloc_size, List.length_singleton]
  rintro ⟨_, fits⟩
  omega

end Macro

section Hashers

variable {hasher : Hasher} {s : Bytes}

/-- **What a wrapper returns**: the digest of the bytes before the first NUL. -/
theorem run_text (hasher : Hasher) (s : Bytes) :
    (hasher.run s).text = some (hexText (Sha2.digest hasher.name (cstr s).bytes)) := by
  cases hasher with
  | luaToSHA256 => exact initHashFunc_text (by decide) (by decide)
  | luaToSHA512 => exact initHashFunc_text (by decide) (by decide)
  | cxxSHA256 => exact initHashFunc_text (by decide) (by decide)
  | cxxSHA512 => exact initHashFunc_text (by decide) (by decide)

/-- A string without NUL is hashed as a whole. -/
theorem run_text_of_clean (clean : (0 : Byte) ∉ s) :
    (hasher.run s).text = some (hexText (Sha2.digest hasher.name s)) := by
  rw [run_text, (cstr_eq_iff s).mpr clean]

/-- No run stays in its array. -/
theorem run_overruns (hasher : Hasher) (s : Bytes) : ¬ (hasher.run s).outputstring.InBounds := by
  cases hasher with
  | luaToSHA256 => exact initHashFunc_overruns
  | luaToSHA512 => exact initHashFunc_overruns
  | cxxSHA256 => exact initHashFunc_overruns
  | cxxSHA512 => exact initHashFunc_overruns

/-- **No wrapper does what it is for**, on any string. -/
theorem not_hashesWhole (hasher : Hasher) (s : Bytes) : ¬ HashesWhole hasher s :=
  fun whole => run_overruns hasher s whole.below

set_option maxRecDepth 10000 in
/-- **The empty string and a string with a NUL**: a byte behind the array is set, and two strings of
different digests have one text. -/
theorem nulHash_collides :
    ¬ HashesWhole .luaToSHA256 [] ∧
      (Hasher.run .luaToSHA256 [104, 0, 105]).text = (Hasher.run .luaToSHA256 [104]).text ∧
      Sha2.digest .sha256 [104, 0, 105] ≠ Sha2.digest .sha256 [104] := by
  refine ⟨fun whole => run_overruns .luaToSHA256 [] whole.below, ?_, by decide +kernel⟩
  rw [run_text, run_text]
  rfl

end Hashers

end Bacteria.EncDec
