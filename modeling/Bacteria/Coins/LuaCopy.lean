/-
**The copy of the coin table that Lua gets.**

`loadCryptocoins` and `getCryptocoinsTable` of libbacteria/lua/libcrypto.c, on a machine with pointers of
eight bytes.

* `structSize`, `sizeofCryptocoin` — the layout of `struct cryptocoin`.
* `nbytesOf` — how many bytes the copy has, computed from the first entry; `luaLoadCryptocoins` — the
  function; `entriesRead` — the entries of the copy that `getCryptocoinsTable` looks at.
* `RightSize` — what the size is for; `rightSize_iff` — it is that of the table and no other.
* `CoinFile` — a file with a section; `copiesRight_iff` — the files for which the copy is right.
-/

import Bacteria.Coins.Lookup
import Mathlib.Algebra.Order.Ring.Int

namespace Bacteria.Coins

open Clib

/-! ### Sizes -/

/-- The next multiple of an alignment. -/
def alignUp (offset alignment : Nat) : Nat := (offset + alignment - 1) / alignment * alignment

/-- `sizeof` a structure whose fields have these sizes, each aligned to its own. -/
def structSize (fields : List Nat) : Nat :=
  alignUp (fields.foldl (fun offset field => alignUp offset field + field) 0) (fields.foldl max 1)

/-- `bool` is the enumeration of macros.h, which has the size of an `int`. -/
def sizeofBool : Nat := 4

/-- `sizeof(uint16_t)`. -/
def sizeofUint16 : Nat := 2

def sizeofPointer : Nat := 8

/-- `sizeof(struct cryptocoin)`. -/
def sizeofCryptocoin : Nat :=
  structSize [sizeofBool, sizeofPointer, sizeofPointer, sizeofUint16, sizeofPointer, sizeofPointer]

theorem sizeofCryptocoin_eq : sizeofCryptocoin = 48 := rfl

/-! ### The functions -/

/-- `nbytes`, a `size_t`; `rpcport - 1` is an `int` before it becomes one. `none` for a null host, which
`strlen` is not made for. -/
def nbytesOf (crypto : Cryptocoin) : Option Nat :=
  crypto.rpchost.map fun rpchost =>
    (sizeofCryptocoin + (crypto.rpcuser.strlen + 1) + (crypto.rpcpassword.strlen + 1) +
      (rpchost.strlen + 1) + (crypto.cryptocoinName.strlen + 1) +
      sizeofBool * crypto.testnet.toNat +
      sizeofUint16 * ((crypto.rpcport.toNat + 2 ^ 64 - 1) % 2 ^ 64)) % 2 ^ 64

/-- The userdata, with the table that was copied into it and the global `count_cryptocoins`. -/
structure LuaCopy where
  table : List Cryptocoin
  nbytes : Nat
  countCryptocoins : Nat
deriving DecidableEq

/-- How `loadCryptocoins` ends. -/
inductive Loading where
  | raised (message : Bytes)
  | undefined
  | loaded (copy : LuaCopy)
deriving DecidableEq

/-- `loadCryptocoins`; the file is `none` when `init_cryptocoins` returns NULL. -/
def luaLoadCryptocoins (cryptocoinsinited : Bool) (pathtofile : CString)
    (file : Option (List Section)) : Loading :=
  if cryptocoinsinited then .raised (ascii "you already loaded cryptocoin config file!\n")
  else
    match file with
    | none => .raised (pathtofile.bytes ++ ascii " load failed\n")
    | some sections =>
      match (initCryptocoins sections).head?.bind nbytesOf with
      | none => .undefined
      | some nbytes => .loaded ⟨initCryptocoins sections, nbytes, sections.length⟩

/-- The entries that the loop of `getCryptocoinsTable` compares, as `scanDown`. -/
def scanReads (table : List Cryptocoin) (needcoin : CString) : Nat → List Nat
  | 0 => []
  | i + 1 =>
    match table[i]? with
    | none => [i]
    | some coin => if needcoin = coin.cryptocoinName then [i] else i :: scanReads table needcoin i

/-- The entries of the copy that `getCryptocoinsTable` reads. -/
def entriesRead (copy : LuaCopy) (needcoin : CString) : List Nat :=
  scanReads copy.table needcoin (UInt8.ofNat copy.countCryptocoins).toNat

/-- **What the size is for**: the entries lie inside the userdata, and the copy reads no more than the
table. -/
structure RightSize (copy : LuaCopy) : Prop where
  covers : copy.table.length * sizeofCryptocoin ≤ copy.nbytes
  reads : ∀ needcoin, ∀ i ∈ entriesRead copy needcoin, i < copy.table.length →
    (i + 1) * sizeofCryptocoin ≤ copy.nbytes
  within : copy.nbytes ≤ copy.table.length * sizeofCryptocoin

/-- A file with a section; `iniparser_getnsec` counts them with an `int`. -/
structure CoinFile where
  first : Section
  rest : List Section
  int : rest.length + 1 < 2 ^ 31

/-- Its sections. -/
def CoinFile.sections (file : CoinFile) : List Section := file.first :: file.rest

/-- The file is loaded, and its copy has the right size. -/
def CopiesRight (pathtofile : CString) (file : CoinFile) : Prop :=
  ∃ copy, luaLoadCryptocoins false pathtofile (some file.sections) = .loaded copy ∧
    copy.table = initCryptocoins file.sections ∧ RightSize copy

/-- The bytes of the strings of an entry, without their terminators. -/
def stringBytes (coin : Cryptocoin) : Nat :=
  coin.rpcuser.strlen + coin.rpcpassword.strlen + (coin.rpchost.map CString.strlen).getD 0 +
    coin.cryptocoinName.strlen

/-- **When the copy is right**: what the first entry adds to `nbytes` is the size of the entries behind
it. -/
def Balanced (file : CoinFile) : Prop :=
  let coin := initCryptocoin file.first
  (stringBytes coin + sizeofBool * coin.testnet.toNat + sizeofUint16 * coin.rpcport.toNat + 2) %
    2 ^ 64 = sizeofCryptocoin * file.rest.length

instance (file : CoinFile) : Decidable (Balanced file) := inferInstanceAs (Decidable (_ = _))

section Sizes

/-- **The right size is that of the table.** -/
theorem rightSize_iff {copy : LuaCopy} :
    RightSize copy ↔ copy.nbytes = copy.table.length * sizeofCryptocoin := by
  constructor
  · exact fun right => Nat.le_antisymm right.within right.covers
  · intro same
    refine ⟨le_of_eq same.symm, fun needcoin i _ inside => ?_, le_of_eq same⟩
    rw [same]
    exact Nat.mul_le_mul_right _ inside

/-- The size that is computed from an entry of a loaded table. -/
theorem nbytesOf_initCryptocoin (sec : Section) :
    nbytesOf (initCryptocoin sec) =
      some ((sizeofCryptocoin + (stringBytes (initCryptocoin sec) +
        sizeofBool * (initCryptocoin sec).testnet.toNat +
        sizeofUint16 * (initCryptocoin sec).rpcport.toNat + 2)) % 2 ^ 64) := by
  have host : (initCryptocoin sec).rpchost =
      some (sec.rpchost.getD ⟨ascii "localhost", by decide⟩) := rfl
  have port := (initCryptocoin sec).rpcport.toNat_lt
  rw [nbytesOf, stringBytes, host, Option.map_some, Option.map_some, Option.getD_some, sizeofUint16]
  refine congrArg some ?_
  omega

/-- What `loadCryptocoins` makes of such a file. -/
theorem luaLoadCryptocoins_coinFile (pathtofile : CString) (file : CoinFile) :
    luaLoadCryptocoins false pathtofile (some file.sections) =
      .loaded ⟨initCryptocoins file.sections, (sizeofCryptocoin +
        (stringBytes (initCryptocoin file.first) +
          sizeofBool * (initCryptocoin file.first).testnet.toNat +
          sizeofUint16 * (initCryptocoin file.first).rpcport.toNat + 2)) % 2 ^ 64,
        file.sections.length⟩ := by
  have head : (initCryptocoins file.sections).head? = some (initCryptocoin file.first) := rfl
  rw [luaLoadCryptocoins, if_neg Bool.false_ne_true]
  simp only [head, Option.bind_some, nbytesOf_initCryptocoin]

/-- **The copy is right exactly for the files that are balanced.** -/
theorem copiesRight_iff (pathtofile : CString) (file : CoinFile) :
    CopiesRight pathtofile file ↔ Balanced file := by
  have int := file.int
  have length : (initCryptocoins file.sections).length = file.rest.length + 1 := by
    rw [initCryptocoins_length, CoinFile.sections, List.length_cons]
  have size : (initCryptocoins file.sections).length * sizeofCryptocoin =
      48 + 48 * file.rest.length := by
    rw [length, sizeofCryptocoin_eq]
    omega
  rw [CopiesRight, luaLoadCryptocoins_coinFile]
  generalize excess : stringBytes (initCryptocoin file.first) +
    sizeofBool * (initCryptocoin file.first).testnet.toNat +
    sizeofUint16 * (initCryptocoin file.first).rpcport.toNat + 2 = added
  have balanced : Balanced file ↔ added % 2 ^ 64 = 48 * file.rest.length := by
    rw [Balanced, ← excess, sizeofCryptocoin_eq]
  have sum : (sizeofCryptocoin + added) % 2 ^ 64 = 48 + 48 * file.rest.length ↔
      added % 2 ^ 64 = 48 * file.rest.length := by
    rw [sizeofCryptocoin_eq]
    omega
  rw [balanced, ← sum, ← size]
  constructor
  · rintro ⟨copy, loaded, _, right⟩
    obtain rfl := Loading.loaded.inj loaded
    exact rightSize_iff.mp right
  · exact fun same => ⟨_, rfl, rfl, rightSize_iff.mpr same⟩

end Sizes

/-- A coin at port 12, and another one. -/
def balancedFile : CoinFile := ⟨plainSection btc 12, [plainSection btc 12], by decide⟩

example : Balanced balancedFile := by decide

/-- **Either size is wrong somewhere**: of one coin at port 8332 the copy reads far behind the table, and
of three coins at port 1 the second entry lies behind the copy. -/
theorem firstEntry_counts :
    luaLoadCryptocoins false btc (some [plainSection btc 8332]) =
        .loaded ⟨initCryptocoins [plainSection btc 8332], 16736, 1⟩ ∧
      ¬ CopiesRight btc ⟨plainSection btc 8332, [], by decide⟩ ∧
      luaLoadCryptocoins false btc (some (List.replicate 3 (plainSection btc 1))) =
        .loaded ⟨initCryptocoins (List.replicate 3 (plainSection btc 1)), 74, 3⟩ ∧
      ¬ CopiesRight btc ⟨plainSection btc 1, List.replicate 2 (plainSection btc 1), by decide⟩ := by
  refine ⟨by decide, ?_, by decide, ?_⟩
  · rintro ⟨copy, loaded, table, right⟩
    have within := right.within
    rw [luaLoadCryptocoins_coinFile] at loaded
    obtain rfl := Loading.loaded.inj loaded
    revert within
    decide
  · rintro ⟨copy, loaded, table, right⟩
    have covers := right.covers
    rw [luaLoadCryptocoins_coinFile] at loaded
    obtain rfl := Loading.loaded.inj loaded
    revert covers
    decide

end Bacteria.Coins
