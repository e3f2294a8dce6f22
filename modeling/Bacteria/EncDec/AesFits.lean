/-
**The buffers of `lua_AESenc` and `lua_AESdec`.**

The bindings write a result and a terminator behind it into a block of `size_msg + 16` bytes, or of
`in->size` bytes.

* `ciphertextBlock`, `plaintextBlock` — the blocks when the calls are over, whatever they return.
* `writtenBlock_inBounds` — when a result and its terminator fit.
* `terminator_fits_iff` — a padded length and the byte behind it, against 16 more than the length.
* `FitsBuffers` — both calls stay inside their blocks; `fitsBuffers_iff` — for which inputs.
-/

import Bacteria.EncDec.Aes

namespace Bacteria.EncDec

open Clib

/-- A block of `size` bytes with what a cipher function wrote in it, and behind a positive length the
terminator. -/
def writtenBlock (size : Nat) (output : Int × Bytes) : Block :=
  let block := (Block.malloc size).write 0 output.2
  if output.1 ≤ 0 then block else block.write output.1.toNat [0]

/-- The block `ciphertext` of a call of `lua_AESenc`, if it was allocated. -/
def ciphertextBlock (evp : Evp) (key iv msg : Bytes) (type : Nat) : Option Block :=
  let plaintext := cstr msg
  let sizeMsg := toInt plaintext.strlen
  if sizeMsg = 0 then none
  else
    match mallocSize (sizeMsg + 16), cipherOf type with
    | some size, some enc =>
      some (writtenBlock size
        (aesAnyEncrypt evp enc plaintext.bytes sizeMsg (cstr key) (cstr iv)))
    | _, _ => none

/-- The block `plaintext` of a call of `lua_AESdec`. -/
def plaintextBlock (evp : Evp) (key iv : Bytes) (input : AESData) (type : Nat) : Option Block :=
  if input.size = 0 then none
  else
    match mallocSize input.size, cipherOf type with
    | some size, some enc =>
      some (writtenBlock size
        (aesAnyDecrypt evp enc (input.data.take input.size) (toInt input.size) (cstr key)
          (cstr iv)))
    | _, _ => none

section Buffers

variable {evp : Evp} {cipher : Cipher} {key iv msg : Bytes}

theorem outputOf_data {size : Nat} {output : Int × Bytes} {data : AESData}
    (found : outputOf size output = .aesData data) : writtenBlock size output = data.data := by
  have positive := outputOf_positive found
  rw [outputOf, if_neg (not_le.mpr positive)] at found
  rw [← Returned.aesData.inj found, writtenBlock, if_neg (not_le.mpr positive)]

/-- **The block behind a returned userdata** is the block of the call. -/
theorem ciphertextBlock_of_returned {type : Nat} {data : AESData}
    (found : luaAESenc evp key iv msg type = .aesData data) :
    ciphertextBlock evp key iv msg type = some data.data := by
  simp only [luaAESenc] at found
  simp only [ciphertextBlock]
  split at found
  · cases found
  · rename_i nonzero
    rw [if_neg nonzero]
    cases allocated : mallocSize (toInt (cstr msg).strlen + 16) with
    | none =>
      simp only [allocated] at found
      cases found
    | some size =>
      cases mode : cipherOf type with
      | none =>
        simp only [allocated, mode] at found
        cases found
      | some enc =>
        simp only [allocated, mode] at found ⊢
        exact congrArg some (outputOf_data found)

/-- **A result and its terminator** fit their block. -/
theorem writtenBlock_inBounds {size : Nat} {output : Int × Bytes} :
    (writtenBlock size output).InBounds ↔
      output.2.length ≤ size ∧ (0 < output.1 → output.1.toNat + 1 ≤ size) := by
  have first : ((Block.malloc size).write 0 output.2).InBounds ↔ output.2.length ≤ size := by
    rw [Block.inBounds_write, Block.malloc_size, Nat.zero_add, iff_true_intro
      (Block.inBounds_malloc size), true_and]
  rw [writtenBlock]
  by_cases negative : output.1 ≤ 0
  · simp only [if_pos negative, first, not_lt.mpr negative, false_implies, and_true]
  · simp only [if_neg negative, Block.inBounds_write, Block.write_size, Block.malloc_size,
      List.length_singleton, not_le.mp negative, true_implies, ← first]

/-- A failed call writes nothing. -/
theorem failedBlock_inBounds (size : Nat) : (writtenBlock size (-1, [])).InBounds := by
  rw [writtenBlock_inBounds]
  exact ⟨Nat.zero_le size, fun positive => by simp at positive⟩

/-- Of a padded length and one byte more there is room in 16 bytes more than the length, unless the
length is a multiple of 16 in a block mode. -/
theorem terminator_fits_iff (cipher : Cipher) (n : Nat) :
    paddedLength cipher n + 1 ≤ n + 16 ↔ cipher = .chacha20Poly1305 ∨ ¬ 16 ∣ n := by
  cases cipher <;> simp only [paddedLength, reduceCtorEq, false_or, true_or, iff_true] <;> omega

/-! ### Encryption -/

/-- The block of an encryption whose sizes are accepted. -/
theorem ciphertextBlock_eq (sizes : badSizes (cstr key) (cstr iv) = false)
    (positive : 0 < encryptedSize msg) :
    ciphertextBlock evp key iv msg (typeOf cipher) =
      some (writtenBlock (encryptedSize msg + 16)
        (toInt (ciphertextOf evp cipher key iv msg).length, ciphertextOf evp cipher key iv msg)) := by
  have sizeMsg := toInt_strlen positive
  have nonzero : toInt (cstr msg).strlen ≠ 0 := by omega
  have encrypted := @aesAnyEncrypt_eq evp cipher key iv msg sizes (by omega)
  simp only [ciphertextBlock, if_neg nonzero, mallocSize_message positive, cipherOf_typeOf,
    encrypted]

/-- **The block of an encryption** that has a result. -/
theorem ciphertextBlock_inBounds (lawful : evp.Lawful) (encrypts : Encrypts cipher key iv msg)
    {block : Block} (found : ciphertextBlock evp key iv msg (typeOf cipher) = some block) :
    block.InBounds ↔ cipher = .chacha20Poly1305 ∨ ¬ 16 ∣ encryptedSize msg := by
  obtain ⟨keySize, ivSize, positive, short⟩ := encrypts
  rw [ciphertextBlock_eq (badSizes_eq_false.mpr ⟨keySize, ivSize⟩) positive] at found
  rw [← Option.some.inj found, writtenBlock_inBounds, ciphertextOf_length lawful,
    ← terminator_fits_iff]
  have longer := le_paddedLength cipher (encryptedSize msg)
  have whole := toInt_of_lt short
  simp only [whole]
  omega

/-- An encryption without a result writes no terminator. -/
theorem ciphertextBlock_of_not_encrypts (lawful : evp.Lawful)
    (fails : ¬ Encrypts cipher key iv msg) {block : Block}
    (found : ciphertextBlock evp key iv msg (typeOf cipher) = some block) : block.InBounds := by
  by_cases accepted : badSizes (cstr key) (cstr iv) = false ∧ 0 < encryptedSize msg
  · obtain ⟨sizes, positive⟩ := accepted
    obtain ⟨keySize, ivSize⟩ := badSizes_eq_false.mp sizes
    rw [ciphertextBlock_eq sizes positive] at found
    rw [← Option.some.inj found, writtenBlock_inBounds, ciphertextOf_length lawful]
    refine ⟨paddedLength_le cipher (encryptedSize msg), fun returned => absurd ?_ fails⟩
    simp only at returned
    exact ⟨keySize, ivSize, positive, lt_of_toInt_pos (paddedLength_lt cipher msg) returned⟩
  · simp only [ciphertextBlock] at found
    split at found
    · cases found
    · rename_i nonzero
      split at found
      · obtain rfl := Option.some.inj found
        have failed : ∀ enc, aesAnyEncrypt evp enc (cstr msg).bytes (toInt (cstr msg).strlen)
            (cstr key) (cstr iv) = (-1, []) := by
          intro enc
          rw [aesAnyEncrypt]
          split
          · rfl
          · rename_i sizes
            have negative : toInt (cstr msg).strlen < 0 := by
              by_contra nonneg
              refine accepted ⟨Bool.not_eq_true _ ▸ sizes, ?_⟩
              rw [encryptedSize]
              omega
            rw [if_pos negative, lawful.negative_refused _ _ negative]
        rw [failed]
        exact failedBlock_inBounds _
      · cases found

/-! ### Decryption -/

/-- In a block mode the plaintext is shorter than the data. -/
theorem length_lt_of_decrypt (lawful : evp.Lawful) (blockMode : cipher ≠ .chacha20Poly1305)
    {input : AESData} {count : Nat} {plain : Bytes}
    (decrypts : evp.decrypt cipher key iv ((input.data.take input.size).take count) = some plain) :
    plain.length < input.size := by
  have padded := lawful.decrypt_length _ _ _ _ _ decrypts
  have data : (input.data.take input.size).length ≤ input.size := by
    have filtered := List.length_filterMap_le input.data.cells (List.range input.size)
    rwa [List.length_range] at filtered
  rw [List.length_take] at padded
  cases cipher with
  | chacha20Poly1305 => exact absurd rfl blockMode
  | aes256cbc =>
    simp only [paddedLength] at padded
    omega
  | aes256ecb =>
    simp only [paddedLength] at padded
    omega

/-- **The block of a decryption in a block mode** has room for the terminator. -/
theorem plaintextBlock_inBounds (lawful : evp.Lawful) (blockMode : cipher ≠ .chacha20Poly1305)
    {input : AESData} (short : input.size < 2 ^ 31) {block : Block}
    (found : plaintextBlock evp key iv input (typeOf cipher) = some block) : block.InBounds := by
  simp only [plaintextBlock, cipherOf_typeOf,
    mallocSize_of_lt (lt_trans short (by decide))] at found
  split at found
  · cases found
  · obtain rfl := Option.some.inj found
    rw [aesAnyDecrypt]
    split
    · exact failedBlock_inBounds _
    split
    · rename_i negative
      rw [lawful.negative_refused _ _ negative]
      exact failedBlock_inBounds _
    split
    · rename_i plain decrypts
      have shorter := length_lt_of_decrypt lawful blockMode decrypts
      have whole : toInt plain.length = plain.length := toInt_of_lt (by omega)
      rw [writtenBlock_inBounds, whole]
      exact ⟨Nat.le_of_lt shorter, fun _ => shorter⟩
    · exact failedBlock_inBounds _

/-- **ChaCha20-Poly1305 leaves no room for the terminator**: the plaintext is as long as the data. -/
theorem plaintextBlock_overruns (lawful : evp.Lawful)
    (encrypts : Encrypts .chacha20Poly1305 key iv msg) :
    ∃ data block, luaAESenc evp key iv msg tChacha20 = .aesData data ∧
      plaintextBlock evp key iv data tChacha20 = some block ∧ ¬ block.InBounds := by
  obtain ⟨data, returned, size, content, _⟩ := luaAESenc_eq lawful encrypts
  obtain ⟨keySize, ivSize, positive, short⟩ := encrypts
  have length := ciphertextOf_length lawful .chacha20Poly1305 key iv msg
  rw [← size] at length
  simp only [paddedLength] at length short
  have message := encryptedSize_le msg
  have decrypts : aesAnyDecrypt evp .chacha20Poly1305 (data.data.take data.size) (toInt data.size)
      (cstr key) (cstr iv) =
        ((encryptedSize msg : Int), (cstr msg).bytes.take (encryptedSize msg)) := by
    have taken : ((cstr msg).bytes.take (encryptedSize msg)).length = encryptedSize msg := by
      rw [List.length_take, Nat.min_eq_left message]
    rw [aesAnyDecrypt, badSizes_eq_false.mpr ⟨keySize, ivSize⟩, if_neg Bool.false_ne_true,
      toInt_of_lt (by omega), if_neg (by omega), Int.toNat_natCast, content, size,
      List.take_length, ciphertextOf, lawful.decrypt_encrypt]
    simp only [taken, toInt_of_lt short]
  refine ⟨data, writtenBlock data.size
    ((encryptedSize msg : Int), (cstr msg).bytes.take (encryptedSize msg)), returned, ?_, ?_⟩
  · have nonzero : data.size ≠ 0 := by omega
    have allocated := mallocSize_of_lt (show data.size < 2 ^ 63 by omega)
    have mode : cipherOf tChacha20 = some .chacha20Poly1305 := cipherOf_typeOf .chacha20Poly1305
    simp only [plaintextBlock, if_neg nonzero, allocated, mode, decrypts]
  · rw [writtenBlock_inBounds]
    rintro ⟨_, terminator⟩
    have room := terminator (Int.natCast_pos.mpr positive)
    rw [Int.toNat_natCast] at room
    omega

/-! ### Both calls -/

/-- **Both calls stay inside their blocks**: the encryption of a message, and the decryption of what it
returned, under any key and initialisation vector. -/
structure FitsBuffers (evp : Evp) (cipher : Cipher) (key iv msg : Bytes) : Prop where
  encryption : ∀ block, ciphertextBlock evp key iv msg (typeOf cipher) = some block →
    block.InBounds
  decryption : ∀ data, luaAESenc evp key iv msg (typeOf cipher) = .aesData data →
    ∀ otherKey otherIv block,
      plaintextBlock evp otherKey otherIv data (typeOf cipher) = some block → block.InBounds

/-- No call of ChaCha20-Poly1305 with a result fits. -/
theorem not_fitsBuffers_chacha20 (lawful : evp.Lawful)
    (encrypts : Encrypts .chacha20Poly1305 key iv msg) :
    ¬ FitsBuffers evp .chacha20Poly1305 key iv msg := by
  intro fits
  obtain ⟨data, block, returned, decrypts, overruns⟩ := plaintextBlock_overruns lawful encrypts
  exact overruns (fits.decryption data returned key iv block decrypts)

/-- Whole blocks do not fit. -/
theorem not_fitsBuffers_whole (lawful : evp.Lawful) (blockMode : cipher ≠ .chacha20Poly1305)
    (encrypts : Encrypts cipher key iv msg) (whole : 16 ∣ encryptedSize msg) :
    ¬ FitsBuffers evp cipher key iv msg := by
  intro fits
  have sizes := badSizes_eq_false.mpr ⟨encrypts.keySize, encrypts.ivSize⟩
  have found := @ciphertextBlock_eq evp cipher key iv msg sizes encrypts.positive
  rcases (ciphertextBlock_inBounds lawful encrypts found).mp (fits.encryption _ found) with
    chacha | broken
  · exact blockMode chacha
  · exact broken whole

/-- A key and an initialisation vector of the right sizes. -/
def sampleKey : Bytes := List.replicate 32 97

def sampleIv : Bytes := List.replicate 16 98

theorem encrypts_sample (cipher : Cipher) {msg : Bytes} (positive : 0 < encryptedSize msg)
    (short : encryptedSize msg < 100) : Encrypts cipher sampleKey sampleIv msg := by
  have upper := paddedLength_le cipher (encryptedSize msg)
  exact ⟨by decide, by decide, positive, by omega⟩

end Buffers

end Bacteria.EncDec
