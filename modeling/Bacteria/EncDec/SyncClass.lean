/-
**The class `encdec::sync` of src/protocolcxx/encdec.cpp.**

Both members choose the cipher with a `switch` whose parts have no `break`.

* `encrypt`, `decrypt` — the two members; `Outcome` is how a call ends.
* `encrypt_thrown`, `decrypt_thrown` — every call runs into the default, which throws.
* `encrypt_overflow` — on the way there, the last part writes the output of ChaCha20-Poly1305 into a
  block of one byte.
* `not_agreesWithC` — so the class agrees with the C functions on no message.
-/

import Bacteria.EncDec.Aes
import Bacteria.Lib.Recv
import Bacteria.Lib.Switch

namespace Bacteria.EncDec

open Clib Switch

/-- `encryptor_type`. -/
inductive EncryptorType where
  | cbc
  | ecb
  | chaCha20
deriving DecidableEq

/-- The C functions of a type. -/
def EncryptorType.cipher : EncryptorType → Cipher
  | cbc => .aes256cbc
  | ecb => .aes256ecb
  | chaCha20 => .chacha20Poly1305

/-- An object of the class; its strings may hold NUL bytes. -/
structure Sync where
  mType : EncryptorType
  mKey : Bytes
  mIV : Bytes

/-- How a member ends. -/
inductive Outcome where
  | returned (text : Bytes)
  | thrown (what : String)
  | undefined
deriving DecidableEq

/-- `new ubytes(n)`: one byte, with the value `n`. -/
def newUbytes (n : Nat) : Block := (Block.malloc 1).write 0 [UInt8.ofNat n]

/-- What stands behind the `switch` of both members; the result is the C string at `pTmpData`. -/
def finish (what : String) (pTmpData : Option Block) (len : Nat) : Outcome :=
  if len ≤ 0 then .thrown what
  else
    match pTmpData with
    | none => .undefined
    | some block =>
      match (block.write len [0]).text? with
      | none => .undefined
      | some text => .returned text

/-! ### `encrypt` -/

/-- The local variables of `encrypt`. -/
structure Encrypting where
  pTmpData : Option Block
  chipherLen : Nat

/-- One part of the `switch`: `setTmpData(data.size(), adv)` and the call of the C function. -/
def encryptPart (evp : Evp) (s : Sync) (data : Bytes) (adv : Nat) (enc : Cipher) (_ : Encrypting) :
    Encrypting :=
  let out := aesAnyEncrypt evp enc data (toInt data.length) (cstr s.mKey) (cstr s.mIV)
  ⟨some ((newUbytes (data.length + adv)).write 0 out.2), sizeT out.1⟩

/-- The parts, each with its label. -/
def encryptParts (evp : Evp) (s : Sync) (data : Bytes) :
    List (EncryptorType × (Encrypting → Encrypting)) :=
  [(.cbc, encryptPart evp s data 17 .aes256cbc), (.ecb, encryptPart evp s data 17 .aes256ecb),
    (.chaCha20, encryptPart evp s data 1 .chacha20Poly1305)]

/-- The default. -/
def undefinedType {σ : Type} (state : σ) : Flow σ String :=
  .raise "Undefined encryptor_type" state

/-- The `switch` of `encrypt`. -/
def encryptSwitch (evp : Evp) (s : Sync) (data : Bytes) : Ended Encrypting String :=
  switch ((encryptParts evp s data).map fun part => (part.1, fun state => .next (part.2 state)))
    undefinedType s.mType ⟨none, 0⟩

/-- `sync::encrypt`. -/
def encrypt (evp : Evp) (s : Sync) (data : Bytes) : Outcome :=
  match encryptSwitch evp s data with
  | .thrown what _ => .thrown what
  | .normally state => finish "Can't encrypt data" state.pTmpData state.chipherLen

/-! ### `decrypt` -/

/-- The local variables of `decrypt`, and the memory of its argument. -/
structure Decrypting where
  pTmpData : Option Block
  decryptLen : Nat
  data : Block

/-- One part of the `switch`: all three call the C function of CBC, from the fresh `pTmpData` (and the
memory behind it) into the argument. -/
def decryptPart (evp : Evp) (s : Sync) (behind : Bytes) (size adv : Nat) (state : Decrypting) :
    Decrypting :=
  let pTmpData := newUbytes (size + adv)
  let out := aesAnyDecrypt evp .aes256cbc (pTmpData.take 1 ++ behind) (toInt size) (cstr s.mKey)
    (cstr s.mIV)
  ⟨some pTmpData, sizeT out.1, state.data.write 0 out.2⟩

/-- The parts, each with its label. -/
def decryptParts (evp : Evp) (s : Sync) (behind : Bytes) (size : Nat) :
    List (EncryptorType × (Decrypting → Decrypting)) :=
  [(.cbc, decryptPart evp s behind size 17), (.ecb, decryptPart evp s behind size 17),
    (.chaCha20, decryptPart evp s behind size 1)]

/-- `sync::decrypt`. -/
def decrypt (evp : Evp) (behind : Bytes) (s : Sync) (data : Bytes) : Outcome :=
  let parts := (decryptParts evp s behind data.length).map fun part =>
    (part.1, fun state => .next (part.2 state))
  match switch parts undefinedType s.mType
      ⟨none, 0, (Block.malloc (data.length + 1)).write 0 (data ++ [0])⟩ with
  | .thrown what _ => .thrown what
  | .normally state => finish "Can't decrypt data" state.pTmpData state.decryptLen

/-! ### What the calls do -/

section Calls

variable (evp : Evp) (s : Sync) (data : Bytes)

/-- **Whatever its type, an object encrypts into the default**, behind the part of ChaCha20. -/
theorem encryptSwitch_eq :
    encryptSwitch evp s data =
      .thrown "Undefined encryptor_type"
        (encryptPart evp s data 1 .chacha20Poly1305 ⟨none, 0⟩) := by
  rw [encryptSwitch, switch_of_fallThrough]
  cases s with
  | mk mType mKey mIV => cases mType <;> rfl

/-- **`encrypt` throws.** -/
theorem encrypt_thrown : encrypt evp s data = .thrown "Undefined encryptor_type" := by
  rw [encrypt, encryptSwitch_eq]

/-- **`decrypt` throws.** -/
theorem decrypt_thrown (behind : Bytes) :
    decrypt evp behind s data = .thrown "Undefined encryptor_type" := by
  rw [decrypt, switch_of_fallThrough]
  rfl

/-- **The output of two bytes or more is written past the block of one byte.** -/
theorem encrypt_overflow (lawful : evp.Lawful) (keySize : (cstr s.mKey).strlen = 32)
    (ivSize : (cstr s.mIV).strlen = 16) (two : 2 ≤ data.length) (small : data.length < 2 ^ 31) :
    ∃ block len, encryptSwitch evp s data =
        .thrown "Undefined encryptor_type" ⟨some block, len⟩ ∧ ¬ block.InBounds := by
  have sizes : badSizes (cstr s.mKey) (cstr s.mIV) = false := badSizes_eq_false.mpr ⟨keySize, ivSize⟩
  have written : (aesAnyEncrypt evp .chacha20Poly1305 data (toInt data.length) (cstr s.mKey)
      (cstr s.mIV)).2.length = data.length := by
    rw [aesAnyEncrypt, sizes, if_neg Bool.false_ne_true, toInt_of_lt small,
      if_neg (not_lt.mpr (Int.natCast_nonneg _)), Int.toNat_natCast, List.take_length]
    exact lawful.encrypt_length _ _ _ _
  refine ⟨_, _, encryptSwitch_eq evp s data, fun inside => ?_⟩
  obtain ⟨_, fits⟩ := Block.inBounds_write.mp inside
  rw [written] at fits
  change 0 + data.length ≤ 1 at fits
  omega

/-- The class agrees with the C functions on a message: `encrypt` returns what the C function of the
type writes, and `decrypt` of that returns the message. -/
def AgreesWithC (behind : Bytes) : Prop :=
  ∃ ciphertext, encrypt evp s data = .returned ciphertext ∧
    ciphertext =
      (aesAnyEncrypt evp s.mType.cipher data data.length (cstr s.mKey) (cstr s.mIV)).2 ∧
    decrypt evp behind s ciphertext = .returned data

/-- **The class agrees with the C functions on no message.** -/
theorem not_agreesWithC (behind : Bytes) : ¬ AgreesWithC evp s data behind := by
  rintro ⟨ciphertext, returned, _⟩
  rw [encrypt_thrown] at returned
  cases returned

end Calls

/-- An object with a key of 32 bytes and a vector of 16. -/
def sampleSync : Sync where
  mType := .chaCha20
  mKey := List.replicate 32 107
  mIV := List.replicate 16 105

/-- **One byte, a good key and a good vector**: both members throw. -/
theorem oneByte_thrown :
    (cstr sampleSync.mKey).strlen = 32 ∧ (cstr sampleSync.mIV).strlen = 16 ∧
      encrypt Evp.chacha20 sampleSync (ascii "a") = .thrown "Undefined encryptor_type" ∧
      ¬ AgreesWithC Evp.chacha20 sampleSync (ascii "a") [] := by
  have thrown := encrypt_thrown Evp.chacha20 sampleSync (ascii "a")
  refine ⟨by decide, by decide, thrown, ?_⟩
  rintro ⟨ciphertext, returned, _⟩
  rw [thrown] at returned
  cases returned

end Bacteria.EncDec
