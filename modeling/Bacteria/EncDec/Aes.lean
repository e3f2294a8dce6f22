/-
**`AES_any_encrypt`, `AES_any_decrypt` and their Lua bindings.**

libbacteria/encdec/sync/AES.c and the AES part of libbacteria/lua/libencdec.c. Lua strings may hold NUL
bytes; the bindings read them as C strings and keep lengths in a C `int`.

* `aesAnyEncrypt`, `aesAnyDecrypt` — the two C functions, over the ciphers of an `Evp`.
* `luaAESenc`, `luaAESdec`, `createAESData`, `getAESData` — the bindings; `AESData` is the userdata that
  carries a result.
* `Encrypts` — when `luaAESenc` has a result: `luaAESenc_eq` and `encrypts_of_luaAESenc`.
* `getAESData_luaAESdec` — what is read back of a decryption.
-/

import Bacteria.Lib.Block
import Bacteria.Lib.Evp
import Mathlib.Algebra.Order.Ring.Int

namespace Bacteria.EncDec

open Clib

/-- A number stored in a C `int`. -/
def toInt (n : Int) : Int := n.bmod (2 ^ 32)

/-- `t_cbc`, `t_ecb`, `t_chacha20`. -/
def tCbc : Nat := 1 <<< 1

def tEcb : Nat := 1 <<< 2

def tChacha20 : Nat := 1 <<< 3

/-- The chain of `INITENCTYPE` and of `INITDECTYPE`. -/
def cipherOf (type : Nat) : Option Cipher :=
  if type &&& tCbc = tCbc then some .aes256cbc
  else if type &&& tEcb = tEcb then some .aes256ecb
  else if type &&& tChacha20 = tChacha20 then some .chacha20Poly1305
  else none

/-- The flag of a cipher, as in `AESENCType`. -/
def typeOf : Cipher → Nat
  | .aes256cbc => tCbc
  | .aes256ecb => tEcb
  | .chacha20Poly1305 => tChacha20

/-- `strlen(iv) != 16 || strlen(key) != 32`. -/
def badSizes (key iv : CString) : Bool := iv.strlen ≠ 16 || key.strlen ≠ 32

/-- `AES_any_encrypt`: what it returns, and the bytes it writes at `ciphertext`. -/
def aesAnyEncrypt (evp : Evp) (enc : Cipher) (plaintext : Bytes) (plaintextLen : Int)
    (key iv : CString) : Int × Bytes :=
  if badSizes key iv then (-1, [])
  else if plaintextLen < 0 then evp.negative enc plaintextLen
  else
    let ciphertext := evp.encrypt enc key.bytes iv.bytes (plaintext.take plaintextLen.toNat)
    (toInt ciphertext.length, ciphertext)

/-- `AES_any_decrypt`. -/
def aesAnyDecrypt (evp : Evp) (enc : Cipher) (ciphertext : Bytes) (ciphertextLen : Int)
    (key iv : CString) : Int × Bytes :=
  if badSizes key iv then (-1, [])
  else if ciphertextLen < 0 then evp.negative enc ciphertextLen
  else
    match evp.decrypt enc key.bytes iv.bytes (ciphertext.take ciphertextLen.toNat) with
    | some plaintext => (toInt plaintext.length, plaintext)
    | none => (-1, [])

/-- `struct lua_AESData`; `data` is the block behind its pointer. -/
structure AESData where
  data : Block
  size : Nat

/-- What a binding leaves for Lua: no value, nil, or a userdata. -/
inductive Returned where
  | nothing
  | nil
  | aesData (data : AESData)

/-- `lua_touserdata` of a result. -/
def Returned.userdata : Returned → Option AESData
  | .aesData data => some data
  | _ => none

/-- `malloc` of a size computed from an `int`, null for a size no allocation can have. -/
def mallocSize (size : Int) : Option Nat :=
  if size % 2 ^ 64 < 2 ^ 63 then some (size % 2 ^ 64).toNat else none

/-- The end of both bindings: nil for a length that is not positive, else a userdata of the terminated
output in its block of `size` bytes. -/
def outputOf (size : Nat) (output : Int × Bytes) : Returned :=
  if output.1 ≤ 0 then .nil
  else .aesData ⟨((Block.malloc size).write 0 output.2).write output.1.toNat [0], output.1.toNat⟩

/-- `lua_AESenc`; `key`, `iv` and `msg` are Lua strings. -/
def luaAESenc (evp : Evp) (key iv msg : Bytes) (type : Nat) : Returned :=
  let plaintext := cstr msg
  let sizeMsg := toInt plaintext.strlen
  if sizeMsg = 0 then .nothing
  else
    match mallocSize (sizeMsg + 16), cipherOf type with
    | some size, some enc =>
      outputOf size (aesAnyEncrypt evp enc plaintext.bytes sizeMsg (cstr key) (cstr iv))
    | _, _ => .nothing

/-- `lua_AESdec`; `input` is the userdata at index 3, if there is one. -/
def luaAESdec (evp : Evp) (key iv : Bytes) (input : Option AESData) (type : Nat) : Returned :=
  match input with
  | none => .nothing
  | some input =>
    if input.size = 0 then .nothing
    else
      match mallocSize input.size, cipherOf type with
      | some size, some enc =>
        outputOf size
          (aesAnyDecrypt evp enc (input.data.take input.size) (toInt input.size) (cstr key)
            (cstr iv))
      | _, _ => .nothing

/-- The bytes `strncpy` writes: at most `size` of the text, and zeroes up to `size`. -/
def strncpy (text : CString) (size : Nat) : Bytes :=
  (text.bytes ++ List.replicate (size - text.strlen) 0).take size

/-- `createAESData`. -/
def createAESData (data : Bytes) (size : Nat) : AESData :=
  ⟨(Block.malloc size).write 0 (strncpy (cstr data) size), size⟩

/-- What `getAESData` pushes; a string without terminator is read on into unknown memory. -/
inductive Pushed where
  | nothing
  | string (text : Bytes)
  | undefined
deriving DecidableEq

/-- `getAESData`, by `lua_pushstring`. -/
def getAESData (input : Option AESData) : Pushed :=
  match input with
  | none => .nothing
  | some input =>
    if input.size = 0 then .nothing
    else
      match input.data.text? with
      | some text => .string text
      | none => .undefined

/-- `getAESData_len`, `none` for no value. -/
def getAESDataLen (input : Option AESData) : Option Nat :=
  match input with
  | none => none
  | some input => if input.size = 0 then none else some input.size

section Bindings

variable {evp : Evp}

/-! ### Lengths in an `int` -/

theorem toInt_of_lt {n : Nat} (small : n < 2 ^ 31) : toInt n = n := by
  refine Int.bmod_eq_of_le ?_ ?_ <;> omega

theorem toInt_lt (n : Int) : toInt n < 2 ^ 31 := by
  have bound := @Int.bmod_lt n (2 ^ 32) (by decide)
  simpa [toInt] using bound

/-- An `int` is at most the natural number that was stored in it. -/
theorem toInt_le (n : Nat) : toInt n ≤ n := by
  by_cases small : n < 2 ^ 31
  · rw [toInt_of_lt small]
  · have below := toInt_lt n
    omega

/-- A length of less than 33 bits that is positive as an `int` has less than 32 bits. -/
theorem lt_of_toInt_pos {n : Nat} (bounded : n < 2 ^ 32) (positive : 0 < toInt n) : n < 2 ^ 31 := by
  by_contra large
  have whole : (n : Int) % (2 ^ 32 : Nat) = n := Int.emod_eq_of_lt (by omega) (by omega)
  rw [toInt, Int.bmod_def, whole, if_neg (by omega)] at positive
  omega

theorem cipherOf_typeOf (cipher : Cipher) : cipherOf (typeOf cipher) = some cipher := by
  cases cipher <;> rfl

theorem mallocSize_of_lt {size : Nat} (small : size < 2 ^ 63) : mallocSize size = some size := by
  have same : (size : Int) % 2 ^ 64 = size := Int.emod_eq_of_lt (by omega) (by omega)
  rw [mallocSize, same, if_pos (by omega), Int.toNat_natCast]

theorem badSizes_eq_false {key iv : CString} :
    badSizes key iv = false ↔ key.strlen = 32 ∧ iv.strlen = 16 := by
  simp [badSizes, and_comm]

/-- **The userdata of an output**: its bytes, their number, and what is read back as a string. -/
theorem outputOf_eq (size : Nat) {bytes : Bytes} (positive : 0 < bytes.length) :
    ∃ data, outputOf size ((bytes.length : Int), bytes) = .aesData data ∧
      data.size = bytes.length ∧ data.data.take data.size = bytes ∧
      data.data.text? = some (cstr bytes).bytes := by
  have holds := Block.holds_write (Block.malloc size) 0 bytes
  have kept : (((Block.malloc size).write 0 bytes).write bytes.length [0]).Holds 0 bytes :=
    Block.holds_write_of_disjoint holds (Or.inl (by omega))
  refine ⟨⟨((Block.malloc size).write 0 bytes).write bytes.length [0], bytes.length⟩, ?_, rfl,
    Block.take_of_holds kept, Block.text?_of_terminated holds⟩
  rw [outputOf, if_neg (by simpa using List.length_pos_iff.mp positive)]
  rfl

theorem outputOf_positive {size : Nat} {output : Int × Bytes} {data : AESData}
    (found : outputOf size output = .aesData data) : 0 < output.1 := by
  by_contra negative
  rw [outputOf, if_pos (not_lt.mp negative)] at found
  cases found

/-- What is read back as a string of the userdata of an output. -/
theorem getAESData_outputOf (size : Nat) {bytes : Bytes} (positive : 0 < bytes.length) :
    getAESData (outputOf size ((bytes.length : Int), bytes)).userdata =
      .string (cstr bytes).bytes := by
  obtain ⟨data, output, whole, _, read⟩ := outputOf_eq size positive
  rw [output]
  simp only [Returned.userdata, getAESData, read]
  rw [if_neg (by omega)]

/-! ### Encryption -/

/-- How much of a message `lua_AESenc` encrypts. -/
def encryptedSize (msg : Bytes) : Nat := (toInt (cstr msg).strlen).toNat

theorem encryptedSize_le (msg : Bytes) : encryptedSize msg ≤ (cstr msg).bytes.length := by
  have bound := toInt_le (cstr msg).strlen
  rw [encryptedSize, CString.strlen]
  rw [CString.strlen] at bound
  omega

theorem encryptedSize_lt (msg : Bytes) : encryptedSize msg < 2 ^ 31 := by
  have bound := toInt_lt (cstr msg).strlen
  rw [encryptedSize]
  omega

/-- The ciphertext `lua_AESenc` computes. -/
def ciphertextOf (evp : Evp) (cipher : Cipher) (key iv msg : Bytes) : Bytes :=
  evp.encrypt cipher (cstr key).bytes (cstr iv).bytes ((cstr msg).bytes.take (encryptedSize msg))

theorem ciphertextOf_length (lawful : evp.Lawful) (cipher : Cipher) (key iv msg : Bytes) :
    (ciphertextOf evp cipher key iv msg).length = paddedLength cipher (encryptedSize msg) := by
  rw [ciphertextOf, lawful.encrypt_length, List.length_take, Nat.min_eq_left (encryptedSize_le msg)]

/-- When `lua_AESenc` has a result. -/
structure Encrypts (cipher : Cipher) (key iv msg : Bytes) : Prop where
  keySize : (cstr key).strlen = 32
  ivSize : (cstr iv).strlen = 16
  positive : 0 < encryptedSize msg
  short : paddedLength cipher (encryptedSize msg) < 2 ^ 31

/-- The padded length of what is encrypted has no more than 32 bits. -/
theorem paddedLength_lt (cipher : Cipher) (msg : Bytes) :
    paddedLength cipher (encryptedSize msg) < 2 ^ 32 := by
  have small := encryptedSize_lt msg
  have upper := paddedLength_le cipher (encryptedSize msg)
  omega

/-- A length that is positive as an `int`. -/
theorem toInt_strlen {msg : Bytes} (positive : 0 < encryptedSize msg) :
    toInt (cstr msg).strlen = encryptedSize msg := by
  rw [encryptedSize] at positive ⊢
  omega

/-- The allocation of `lua_AESenc` for such a length. -/
theorem mallocSize_message {msg : Bytes} (positive : 0 < encryptedSize msg) :
    mallocSize (toInt (cstr msg).strlen + 16) = some (encryptedSize msg + 16) := by
  have small := encryptedSize_lt msg
  rw [toInt_strlen positive,
    ← mallocSize_of_lt (show encryptedSize msg + 16 < 2 ^ 63 by omega)]
  push_cast
  rfl

/-- The call of `AES_any_encrypt` in `lua_AESenc`, for sizes it accepts. -/
theorem aesAnyEncrypt_eq (cipher : Cipher) {key iv msg : Bytes}
    (sizes : badSizes (cstr key) (cstr iv) = false) (nonneg : 0 ≤ toInt (cstr msg).strlen) :
    aesAnyEncrypt evp cipher (cstr msg).bytes (toInt (cstr msg).strlen) (cstr key) (cstr iv) =
      (toInt (ciphertextOf evp cipher key iv msg).length, ciphertextOf evp cipher key iv msg) := by
  rw [aesAnyEncrypt, sizes, if_neg Bool.false_ne_true, if_neg (not_lt.mpr nonneg)]
  rfl

/-- **The result of an encryption**: the ciphertext of the encrypted part of the message, its length,
and what is read back of it as a string. -/
theorem luaAESenc_eq (lawful : evp.Lawful) {cipher : Cipher} {key iv msg : Bytes}
    (encrypts : Encrypts cipher key iv msg) :
    ∃ data, luaAESenc evp key iv msg (typeOf cipher) = .aesData data ∧
      data.size = (ciphertextOf evp cipher key iv msg).length ∧
      data.data.take data.size = ciphertextOf evp cipher key iv msg ∧
      data.data.text? = some (cstr (ciphertextOf evp cipher key iv msg)).bytes := by
  obtain ⟨keySize, ivSize, positive, short⟩ := encrypts
  have length := ciphertextOf_length lawful cipher key iv msg
  have below := le_paddedLength cipher (encryptedSize msg)
  have sizeMsg := toInt_strlen positive
  have nonneg : 0 ≤ toInt (cstr msg).strlen := by
    rw [sizeMsg]
    exact Int.natCast_nonneg _
  have returned : toInt (ciphertextOf evp cipher key iv msg).length =
      (ciphertextOf evp cipher key iv msg).length := by
    rw [length]
    exact toInt_of_lt short
  have encrypted := @aesAnyEncrypt_eq evp cipher key iv msg
    (badSizes_eq_false.mpr ⟨keySize, ivSize⟩) nonneg
  rw [returned] at encrypted
  obtain ⟨data, output, rest⟩ := outputOf_eq (encryptedSize msg + 16)
    (show 0 < (ciphertextOf evp cipher key iv msg).length by omega)
  refine ⟨data, ?_, rest⟩
  simp only [luaAESenc, cipherOf_typeOf, mallocSize_message positive, encrypted, output]
  rw [if_neg (by omega)]

/-- **Otherwise there is no userdata.** -/
theorem encrypts_of_luaAESenc (lawful : evp.Lawful) {cipher : Cipher} {key iv msg : Bytes}
    {data : AESData} (found : luaAESenc evp key iv msg (typeOf cipher) = .aesData data) :
    Encrypts cipher key iv msg := by
  simp only [luaAESenc, cipherOf_typeOf] at found
  split at found
  · cases found
  rename_i nonzero
  cases allocated : mallocSize (toInt (cstr msg).strlen + 16) with
  | none =>
    rw [allocated] at found
    cases found
  | some size =>
    rw [allocated] at found
    have returned := outputOf_positive found
    cases sizes : badSizes (cstr key) (cstr iv) with
    | true =>
      rw [aesAnyEncrypt, sizes, if_pos rfl] at returned
      exact absurd returned (by decide)
    | false =>
      obtain ⟨keySize, ivSize⟩ := badSizes_eq_false.mp sizes
      by_cases negative : toInt (cstr msg).strlen < 0
      · rw [aesAnyEncrypt, sizes, if_neg Bool.false_ne_true, if_pos negative,
          lawful.negative_refused _ _ negative] at returned
        exact absurd returned (by decide)
      · rw [aesAnyEncrypt_eq cipher sizes (not_lt.mp negative),
          ciphertextOf_length lawful] at returned
        simp only at returned
        have positive : 0 < encryptedSize msg := by
          rw [encryptedSize]
          omega
        exact ⟨keySize, ivSize, positive, lt_of_toInt_pos (paddedLength_lt cipher msg) returned⟩

/-- Both cases of an encryption. -/
theorem luaAESenc_cases (lawful : evp.Lawful) (cipher : Cipher) (key iv msg : Bytes) :
    (Encrypts cipher key iv msg ∧ ∃ data, luaAESenc evp key iv msg (typeOf cipher) = .aesData data ∧
      data.size = (ciphertextOf evp cipher key iv msg).length ∧
      data.data.take data.size = ciphertextOf evp cipher key iv msg ∧
      data.data.text? = some (cstr (ciphertextOf evp cipher key iv msg)).bytes) ∨
    (¬ Encrypts cipher key iv msg ∧
      (luaAESenc evp key iv msg (typeOf cipher)).userdata = none) := by
  by_cases encrypts : Encrypts cipher key iv msg
  · exact Or.inl ⟨encrypts, luaAESenc_eq lawful encrypts⟩
  · refine Or.inr ⟨encrypts, ?_⟩
    cases returned : luaAESenc evp key iv msg (typeOf cipher) with
    | nothing => rfl
    | nil => rfl
    | aesData data => exact absurd (encrypts_of_luaAESenc lawful returned) encrypts

/-! ### Decryption -/

section Decryption

variable {cipher : Cipher} {key iv : Bytes} {input : AESData}

/-- The call of `AES_any_decrypt` in `lua_AESdec`, for sizes it accepts. -/
theorem luaAESdec_eq (keySize : (cstr key).strlen = 32) (ivSize : (cstr iv).strlen = 16)
    (content : (input.data.take input.size).length = input.size) (short : input.size < 2 ^ 31)
    (nonempty : input.size ≠ 0) :
    luaAESdec evp key iv (some input) (typeOf cipher) = outputOf input.size
      (match evp.decrypt cipher (cstr key).bytes (cstr iv).bytes (input.data.take input.size) with
        | some plain => (toInt plain.length, plain)
        | none => (-1, [])) := by
  have decrypted : aesAnyDecrypt evp cipher (input.data.take input.size) (toInt input.size)
      (cstr key) (cstr iv) =
        match evp.decrypt cipher (cstr key).bytes (cstr iv).bytes (input.data.take input.size) with
        | some plain => (toInt plain.length, plain)
        | none => (-1, []) := by
    rw [aesAnyDecrypt, badSizes_eq_false.mpr ⟨keySize, ivSize⟩, if_neg Bool.false_ne_true,
      toInt_of_lt short, if_neg (by omega), Int.toNat_natCast,
      List.take_of_length_le (le_of_eq content)]
  simp only [luaAESdec, if_neg nonempty, cipherOf_typeOf,
    mallocSize_of_lt (lt_trans short (by decide)), decrypted]

/-- **What is read back of a decryption**: the C string of the plaintext, unless that is empty. -/
theorem getAESData_luaAESdec (lawful : evp.Lawful) {text : Bytes}
    (keySize : (cstr key).strlen = 32) (ivSize : (cstr iv).strlen = 16)
    (content : (input.data.take input.size).length = input.size) (short : input.size < 2 ^ 31) :
    getAESData (luaAESdec evp key iv (some input) (typeOf cipher)).userdata = .string text ↔
      ∃ plain, evp.decrypt cipher (cstr key).bytes (cstr iv).bytes (input.data.take input.size) =
        some plain ∧ plain ≠ [] ∧ (cstr plain).bytes = text := by
  have shorter : ∀ plain, evp.decrypt cipher (cstr key).bytes (cstr iv).bytes
      (input.data.take input.size) = some plain → plain.length ≤ input.size := by
    intro plain decrypts
    have padded := lawful.decrypt_length _ _ _ _ _ decrypts
    have longer := le_paddedLength cipher plain.length
    omega
  have output : ∀ plain, evp.decrypt cipher (cstr key).bytes (cstr iv).bytes
      (input.data.take input.size) = some plain → plain ≠ [] →
        getAESData (luaAESdec evp key iv (some input) (typeOf cipher)).userdata =
          .string (cstr plain).bytes := by
    intro plain decrypts filled
    have bound := shorter plain decrypts
    have positive := List.length_pos_iff.mpr filled
    rw [luaAESdec_eq keySize ivSize content short (by omega), decrypts]
    simp only [toInt_of_lt (lt_of_le_of_lt bound short)]
    exact getAESData_outputOf input.size positive
  constructor
  · intro read
    by_cases empty : input.size = 0
    · simp only [luaAESdec, if_pos empty] at read
      cases read
    cases decrypts : evp.decrypt cipher (cstr key).bytes (cstr iv).bytes
        (input.data.take input.size) with
    | none =>
      rw [luaAESdec_eq keySize ivSize content short empty, decrypts] at read
      cases read
    | some plain =>
      have filled : plain ≠ [] := by
        rintro rfl
        rw [luaAESdec_eq keySize ivSize content short empty, decrypts] at read
        cases read
      have same := (output plain decrypts filled).symm.trans read
      exact ⟨plain, rfl, filled, Pushed.string.inj same⟩
  · rintro ⟨plain, decrypts, filled, rfl⟩
    exact output plain decrypts filled

end Decryption

/-- **A text without NUL as data for a decryption.** -/
theorem createAESData_take {text : Bytes} (clean : (0 : Byte) ∉ text) :
    (createAESData text text.length).data.take text.length = text := by
  have copied : strncpy (cstr text) text.length = text := by
    rw [strncpy, CString.strlen, (cstr_eq_iff text).mpr clean, Nat.sub_self, List.replicate_zero,
      List.append_nil, List.take_length]
  have written := Block.take_of_holds (Block.holds_write (Block.malloc text.length) 0 text)
  rw [createAESData, copied]
  exact written

end Bindings

end Bacteria.EncDec
