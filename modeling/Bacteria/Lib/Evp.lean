/-
**Symmetric ciphers as the EVP layer of OpenSSL offers them.**

* `Cipher` — the three algorithms; `paddedLength` — how long their output is.
* `Evp` — what one call sequence Init, Update, Final makes of its input; `Evp.Lawful` — decryption
  inverts encryption, and the lengths.
* `Evp.ofKeystream` — the ciphers a key stream gives, with padding for the block modes;
  `ofKeystream_lawful`: they are lawful.
* `ChaCha20.keystream` — the key stream of ChaCha20-Poly1305, with which `Evp.chacha20` computes that
  cipher's data bytes.
-/

import Bacteria.Lib.CString

namespace Clib

/-- `EVP_aes_256_cbc`, `EVP_aes_256_ecb`, `EVP_chacha20_poly1305`. -/
inductive Cipher where
  | aes256cbc
  | aes256ecb
  | chacha20Poly1305
deriving DecidableEq

/-- The length of the output for `n` bytes of input. -/
def paddedLength : Cipher → Nat → Nat
  | .chacha20Poly1305, n => n
  | _, n => 16 * (n / 16 + 1)

/-- The output of a call sequence, for a cipher, a key, an initialisation vector and an input; a
decryption that ends with an error has none. `negative` is what a sequence with a negative length
returns, and writes. -/
structure Evp where
  encrypt : Cipher → Bytes → Bytes → Bytes → Bytes
  decrypt : Cipher → Bytes → Bytes → Bytes → Option Bytes
  negative : Cipher → Int → Int × Bytes

/-- The laws of the ciphers; a negative length is an error, and nothing is written. -/
structure Evp.Lawful (evp : Evp) : Prop where
  decrypt_encrypt : ∀ cipher key iv text,
    evp.decrypt cipher key iv (evp.encrypt cipher key iv text) = some text
  encrypt_length : ∀ cipher key iv text,
    (evp.encrypt cipher key iv text).length = paddedLength cipher text.length
  decrypt_length : ∀ cipher key iv data text, evp.decrypt cipher key iv data = some text →
    data.length = paddedLength cipher text.length
  negative_refused : ∀ cipher length, length < 0 → evp.negative cipher length = (-1, [])

theorem le_paddedLength (cipher : Cipher) (n : Nat) : n ≤ paddedLength cipher n := by
  cases cipher <;> simp only [paddedLength] <;> omega

theorem paddedLength_mono (cipher : Cipher) {m n : Nat} (le : m ≤ n) :
    paddedLength cipher m ≤ paddedLength cipher n := by
  cases cipher <;> simp only [paddedLength] <;> omega

theorem paddedLength_le (cipher : Cipher) (n : Nat) : paddedLength cipher n ≤ n + 16 := by
  cases cipher <;> simp only [paddedLength] <;> omega

/-! ### Key streams -/

section Keystream

/-- Bytewise exclusive or. -/
def xorBytes (stream text : Bytes) : Bytes := List.zipWith (· ^^^ ·) stream text

theorem xorBytes_length {stream text : Bytes} (long : text.length ≤ stream.length) :
    (xorBytes stream text).length = text.length := by
  rw [xorBytes, List.length_zipWith]
  omega

theorem xorBytes_cancel {stream text : Bytes} (long : text.length ≤ stream.length) :
    xorBytes stream (xorBytes stream text) = text := by
  induction text generalizing stream with
  | nil => simp [xorBytes]
  | cons b text ih =>
    cases stream with
    | nil => simp at long
    | cons k stream =>
      have shorter : text.length ≤ stream.length := by simpa using long
      have rest := ih shorter
      simp only [xorBytes] at rest
      simp only [xorBytes, List.zipWith_cons_cons, rest, ← UInt8.xor_assoc, UInt8.xor_self,
        UInt8.zero_xor]

/-- How many bytes of padding a block mode adds. -/
def padCount (n : Nat) : Nat := 16 - n % 16

/-- Padding to whole blocks: every added byte is the number of added bytes. -/
def pad (text : Bytes) : Bytes :=
  text ++ List.replicate (padCount text.length) (UInt8.ofNat (padCount text.length))

/-- Taking the padding off, `none` when it is not well formed. -/
def unpad (data : Bytes) : Option Bytes :=
  let count := (data.getLastD 0).toNat
  let text := data.take (data.length - count)
  if data.length % 16 = 0 ∧ count ≤ data.length ∧ pad text = data then some text else none

theorem pad_length (text : Bytes) : (pad text).length = 16 * (text.length / 16 + 1) := by
  rw [pad, List.length_append, List.length_replicate, padCount]
  omega

theorem unpad_pad (text : Bytes) : unpad (pad text) = some text := by
  have positive : 0 < padCount text.length := by
    rw [padCount]
    omega
  have small : padCount text.length < 256 := by
    rw [padCount]
    omega
  have last : ((pad text).getLastD 0).toNat = padCount text.length := by
    obtain ⟨count, shape⟩ := Nat.exists_eq_succ_of_ne_zero (Nat.ne_of_gt positive)
    rw [pad, shape, List.replicate_succ', ← List.append_assoc, List.getLastD_concat, ← shape,
      UInt8.toNat_ofNat', Nat.mod_eq_of_lt small]
  have size := pad_length text
  have front : (pad text).take ((pad text).length - padCount text.length) = text := by
    rw [pad, List.length_append, List.length_replicate, Nat.add_sub_cancel, List.take_left]
  rw [unpad, last]
  simp only [front]
  rw [if_pos ⟨by omega, by rw [pad, List.length_append, List.length_replicate]; omega, trivial⟩]

theorem unpad_length {data text : Bytes} (found : unpad data = some text) :
    data.length = 16 * (text.length / 16 + 1) := by
  simp only [unpad] at found
  split at found
  · rename_i wellFormed
    obtain rfl := Option.some.inj found
    rw [← pad_length, wellFormed.2.2]
  · cases found

/-- What a cipher makes of its input before the key stream comes in. -/
def padFor : Cipher → Bytes → Bytes
  | .chacha20Poly1305, text => text
  | _, text => pad text

def unpadFor : Cipher → Bytes → Option Bytes
  | .chacha20Poly1305, data => some data
  | _, data => unpad data

theorem unpadFor_padFor (cipher : Cipher) (text : Bytes) :
    unpadFor cipher (padFor cipher text) = some text := by
  cases cipher with
  | aes256cbc => exact unpad_pad text
  | aes256ecb => exact unpad_pad text
  | chacha20Poly1305 => rfl

theorem padFor_length (cipher : Cipher) (text : Bytes) :
    (padFor cipher text).length = paddedLength cipher text.length := by
  cases cipher with
  | aes256cbc => exact pad_length text
  | aes256ecb => exact pad_length text
  | chacha20Poly1305 => rfl

theorem unpadFor_length {cipher : Cipher} {data text : Bytes}
    (found : unpadFor cipher data = some text) :
    data.length = paddedLength cipher text.length := by
  cases cipher with
  | aes256cbc => exact unpad_length found
  | aes256ecb => exact unpad_length found
  | chacha20Poly1305 => rw [Option.some.inj found, paddedLength]

/-- The ciphers of a key stream; `stream key iv n` has at least `n` bytes. -/
def Evp.ofKeystream (stream : Bytes → Bytes → Nat → Bytes) : Evp where
  encrypt cipher key iv text :=
    let data := padFor cipher text
    xorBytes (stream key iv data.length) data
  decrypt cipher key iv data := unpadFor cipher (xorBytes (stream key iv data.length) data)
  negative _ _ := (-1, [])

/-- **A key stream gives lawful ciphers.** -/
theorem ofKeystream_lawful {stream : Bytes → Bytes → Nat → Bytes}
    (long : ∀ key iv n, n ≤ (stream key iv n).length) : (Evp.ofKeystream stream).Lawful := by
  have size : ∀ key iv text, (xorBytes (stream key iv text.length) text).length = text.length :=
    fun key iv text => xorBytes_length (long key iv text.length)
  refine ⟨fun cipher key iv text => ?_, fun cipher key iv text => ?_,
    fun cipher key iv data text found => ?_, fun _ _ _ => rfl⟩
  · simp only [Evp.ofKeystream]
    rw [size, xorBytes_cancel (long key iv _), unpadFor_padFor]
  · simp only [Evp.ofKeystream]
    rw [size, padFor_length]
  · rw [← size key iv data]
    exact unpadFor_length found

end Keystream

/-! ### The key stream of ChaCha20-Poly1305 -/

namespace ChaCha20

/-- Rotation to the left. -/
def rotate (x : UInt32) (n : UInt32) : UInt32 := (x <<< n) ||| (x >>> (32 - n))

/-- A little-endian word of a byte string. -/
def word (bytes : Bytes) (index : Nat) : UInt32 :=
  let byte := fun offset => UInt32.ofNat (bytes.getD (4 * index + offset) 0).toNat
  byte 0 ||| (byte 1 <<< 8) ||| (byte 2 <<< 16) ||| (byte 3 <<< 24)

/-- The bytes of a word. -/
def wordBytes (x : UInt32) : Bytes :=
  [x.toUInt8, (x >>> 8).toUInt8, (x >>> 16).toUInt8, (x >>> 24).toUInt8]

/-- The quarter round on four words of the state. -/
def quarterRound (state : List UInt32) (a b c d : Nat) : List UInt32 :=
  let xa := state.getD a 0 + state.getD b 0
  let xd := rotate (state.getD d 0 ^^^ xa) 16
  let xc := state.getD c 0 + xd
  let xb := rotate (state.getD b 0 ^^^ xc) 12
  let xa := xa + xb
  let xd := rotate (xd ^^^ xa) 8
  let xc := xc + xd
  let xb := rotate (xb ^^^ xc) 7
  (((state.set a xa).set b xb).set c xc).set d xd

/-- Four column rounds and four diagonal rounds. -/
def doubleRound (state : List UInt32) : List UInt32 :=
  [(0, 4, 8, 12), (1, 5, 9, 13), (2, 6, 10, 14), (3, 7, 11, 15), (0, 5, 10, 15), (1, 6, 11, 12),
    (2, 7, 8, 13), (3, 4, 9, 14)].foldl
      (fun state quarter => quarterRound state quarter.1 quarter.2.1 quarter.2.2.1 quarter.2.2.2)
      state

/-- The state before the rounds: constants, key, block counter and nonce. -/
def initial (key iv : Bytes) (counter : Nat) : List UInt32 :=
  (List.range 4).map (word (ascii "expand 32-byte k")) ++ (List.range 8).map (word key) ++
    UInt32.ofNat counter :: (List.range 3).map (word iv)

/-- One block of the key stream. -/
def block (key iv : Bytes) (counter : Nat) : Bytes :=
  let start := initial key iv counter
  let final := (List.range 10).foldl (fun state _ => doubleRound state) start
  (List.range 16).flatMap fun index => wordBytes (final.getD index 0 + start.getD index 0)

/-- The key stream for `n` bytes of data: block 0 is spent on the authenticator's key, and of the
initialisation vector the first twelve bytes are used. -/
def keystream (key iv : Bytes) (n : Nat) : Bytes :=
  (List.range ((n + 63) / 64)).flatMap fun index => block key iv (index + 1)

example :
    (keystream ((List.range 32).map UInt8.ofNat) [0, 0, 0, 0, 0, 0, 0, 0x4a, 0, 0, 0, 0] 16).take 4 =
      [0x22, 0x4f, 0x51, 0xf3] := by decide +kernel

theorem block_length (key iv : Bytes) (counter : Nat) : (block key iv counter).length = 64 := by
  simp [block, wordBytes, List.length_flatMap]

theorem le_keystream_length (key iv : Bytes) (n : Nat) : n ≤ (keystream key iv n).length := by
  have size : (keystream key iv n).length = (n + 63) / 64 * 64 := by
    simp [keystream, List.length_flatMap, block_length]
  rw [size]
  omega

end ChaCha20

/-- ChaCha20-Poly1305 as it is; the block modes stand for any cipher with their padding. -/
def Evp.chacha20 : Evp := Evp.ofKeystream ChaCha20.keystream

theorem chacha20_lawful : Evp.chacha20.Lawful := ofKeystream_lawful ChaCha20.le_keystream_length

end Clib
