/-
**Authenticated encryption as the EVP layer of OpenSSL offers it.**

* `Aead` — what an authenticated cipher makes of a key, an initialisation vector and data: the sealed
  bytes, the bytes opened again, and the tag; `Aead.Lawful` — the laws of the bytes.
* `CipherCtx` — a cipher context with the input so far and its tag; `encryptUpdate`, `encryptFinal`,
  `decryptUpdate`, `decryptFinal` — the calls on it. The tag is no part of the output: it stays in the
  context after an encryption, and is compared at the end of a decryption if one was put there.
* `encryptOnce_bytes`, `decryptOnce_of_untagged` — what a single update and a final call give.
* `Aead.chacha20Poly1305` — that cipher as it is, to compute with.
-/

import Bacteria.Lib.Evp
import Mathlib.Algebra.Order.Ring.Int

namespace Clib

/-- An authenticated cipher, without additional data: key, initialisation vector, and the text or the
sealed bytes. A negative length is refused, or the call is undefined. -/
structure Aead where
  encipher : Bytes → Bytes → Bytes → Bytes
  decipher : Bytes → Bytes → Bytes → Bytes
  tag : Bytes → Bytes → Bytes → Bytes
  refusesNegative : Bool

/-- The laws of the bytes: opening inverts sealing, and neither changes the length. -/
structure Aead.Lawful (aead : Aead) : Prop where
  decipher_encipher : ∀ key iv text, aead.decipher key iv (aead.encipher key iv text) = text
  encipher_length : ∀ key iv text, (aead.encipher key iv text).length = text.length
  decipher_length : ∀ key iv data, (aead.decipher key iv data).length = data.length

/-- `EVP_CIPHER_CTX`: the input of the updates so far, and the tag that `EVP_CIPHER_CTX_ctrl` gets
after an encryption, or set for a decryption. -/
structure CipherCtx where
  key : Bytes
  iv : Bytes
  given : Bytes
  tag : Option Bytes

namespace CipherCtx

section Calls

variable (aead : Aead)

/-- `EVP_EncryptInit_ex`, `EVP_DecryptInit_ex`. -/
def init (key iv : Bytes) : CipherCtx := ⟨key, iv, [], none⟩

/-- `EVP_EncryptUpdate`: the bytes it writes, and the context after it. -/
def encryptUpdate (ctx : CipherCtx) (text : Bytes) : Bytes × CipherCtx :=
  let given := ctx.given ++ text
  ((aead.encipher ctx.key ctx.iv given).drop ctx.given.length, { ctx with given })

/-- `EVP_EncryptFinal_ex` writes nothing; the tag is in the context from now on. -/
def encryptFinal (ctx : CipherCtx) : CipherCtx :=
  { ctx with tag := some (aead.tag ctx.key ctx.iv (aead.encipher ctx.key ctx.iv ctx.given)) }

/-- `EVP_DecryptUpdate`. -/
def decryptUpdate (ctx : CipherCtx) (data : Bytes) : Bytes × CipherCtx :=
  let given := ctx.given ++ data
  ((aead.decipher ctx.key ctx.iv given).drop ctx.given.length, { ctx with given })

/-- `EVP_DecryptFinal_ex`: it compares the tag that was set, and nothing when none was. -/
def decryptFinal (ctx : CipherCtx) : Bool :=
  match ctx.tag with
  | some tag => tag = aead.tag ctx.key ctx.iv ctx.given
  | none => true

/-- Init, one update and the final call of an encryption. -/
def encryptOnce (key iv text : Bytes) : Bytes × CipherCtx :=
  let update := (init key iv).encryptUpdate aead text
  (update.1, update.2.encryptFinal aead)

/-- Init, one update and the final call of a decryption; `none` when the final call fails. -/
def decryptOnce (key iv : Bytes) (tag : Option Bytes) (data : Bytes) : Option Bytes :=
  let update := { init key iv with tag }.decryptUpdate aead data
  if update.2.decryptFinal aead then some update.1 else none

end Calls

variable {aead : Aead}

theorem encryptOnce_bytes (key iv text : Bytes) :
    (encryptOnce aead key iv text).1 = aead.encipher key iv text := rfl

/-- **Without a tag every data opens.** -/
theorem decryptOnce_of_untagged (key iv data : Bytes) :
    decryptOnce aead key iv none data = some (aead.decipher key iv data) := rfl

end CipherCtx

/-! ### The authenticator of ChaCha20-Poly1305 -/

namespace Poly1305

/-- A little-endian number. -/
def number (bytes : Bytes) : Nat := bytes.foldr (fun b value => b.toNat + 256 * value) 0

/-- The first bytes of a number. -/
def numberBytes (count value : Nat) : Bytes :=
  (List.range count).map fun index => UInt8.ofNat (value / 256 ^ index)

/-- The polynomial of the 16-byte blocks of `data`, under a key of 32 bytes. -/
def mac (key data : Bytes) : Bytes :=
  let r := number (key.take 16) &&& 0x0ffffffc0ffffffc0ffffffc0fffffff
  let s := number ((key.drop 16).take 16)
  let sum := (List.range (data.length / 16)).foldl (fun sum index =>
    (sum + number ((data.drop (16 * index)).take 16 ++ [1])) * r % (2 ^ 130 - 5)) 0
  numberBytes 16 (sum + s)

end Poly1305

/-- The tag of sealed bytes: padded to whole blocks, and the two lengths behind them. -/
def ChaCha20.tag (key iv data : Bytes) : Bytes :=
  Poly1305.mac ((ChaCha20.block key iv 0).take 32)
    (data ++ List.replicate ((16 - data.length % 16) % 16) 0 ++ List.replicate 8 0 ++
      Poly1305.numberBytes 8 data.length)

/-- ChaCha20-Poly1305. -/
def Aead.chacha20Poly1305 : Aead where
  encipher key iv text := xorBytes (ChaCha20.keystream key iv text.length) text
  decipher key iv data := xorBytes (ChaCha20.keystream key iv data.length) data
  tag := ChaCha20.tag
  refusesNegative := false

theorem Aead.chacha20Poly1305_lawful : Aead.chacha20Poly1305.Lawful := by
  have size : ∀ key iv text, (xorBytes (ChaCha20.keystream key iv text.length) text).length =
      text.length := fun key iv text =>
    xorBytes_length (ChaCha20.le_keystream_length key iv text.length)
  refine ⟨fun key iv text => ?_, size, size⟩
  simp only [Aead.chacha20Poly1305]
  rw [size, xorBytes_cancel (ChaCha20.le_keystream_length key iv text.length)]

example :
    (ChaCha20.tag ((List.range 32).map UInt8.ofNat) [0, 0, 0, 0, 0, 0, 0, 0x4a, 0, 0, 0, 0]
      [0x4a, 0x2a, 0x3d, 0x9f, 0x2f]).take 4 = [0x98, 0xec, 0x14, 0x37] := by decide +kernel

end Clib
