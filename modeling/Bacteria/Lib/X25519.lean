/-
**Key agreement as the EVP layer of OpenSSL offers it, and X25519.**

* `EvpDerive` — what the calls of one derivation return; any of them may fail.
* `EvpDerive.Lawful` — the documented fact for X25519: a secret has 32 bytes.
* `X25519.sharedSecret` — the function itself: the Montgomery ladder over the bits of the clamped
  private key.
* `EvpDerive.ofPrivateKey` — the calls for one private key, when there is memory; a secret of zeroes
  makes the derivation fail.
-/

import Bacteria.Lib.EvpAead

namespace Clib

/-- One derivation over an `EVP_PKEY_CTX`. -/
structure EvpDerive where
  Pkey : Type
  /-- `EVP_PKEY_derive_init`. -/
  deriveInit : Int
  /-- `EVP_PKEY_new_raw_public_key`, `none` for NULL. -/
  rawPublicKey : Bytes → Option Pkey
  /-- `EVP_PKEY_derive_set_peer`. -/
  setPeer : Option Pkey → Int
  /-- `EVP_PKEY_derive` without a buffer: what it returns, and the length it stores. -/
  deriveLength : Option Pkey → Int × Nat
  /-- Whether `OPENSSL_malloc` has so many bytes. -/
  malloc : Nat → Bool
  /-- `EVP_PKEY_derive` with a buffer: what it returns, and the bytes it writes. -/
  derive : Option Pkey → Int × Bytes

/-- A secret of X25519 has 32 bytes. -/
structure EvpDerive.Lawful (evp : EvpDerive) : Prop where
  derive_length : ∀ pkey, 0 < (evp.derive pkey).1 → (evp.derive pkey).2.length = 32

namespace X25519

open Poly1305

/-- The prime of the field. -/
def prime : Nat := 2 ^ 255 - 19

def sub (a b : Nat) : Nat := (a + prime - b) % prime

def mul (a b : Nat) : Nat := a * b % prime

/-- The four coordinates of the ladder. -/
structure Ladder where
  x2 : Nat
  z2 : Nat
  x3 : Nat
  z3 : Nat

/-- The two points exchanged. -/
def Ladder.swap (s : Ladder) : Ladder := ⟨s.x3, s.z3, s.x2, s.z2⟩

/-- One doubling and one addition, for the base `u`. -/
def Ladder.step (u : Nat) (s : Ladder) : Ladder :=
  let a := (s.x2 + s.z2) % prime
  let aa := mul a a
  let b := sub s.x2 s.z2
  let bb := mul b b
  let e := sub aa bb
  let da := mul (sub s.x3 s.z3) a
  let cb := mul ((s.x3 + s.z3) % prime) b
  let sum := (da + cb) % prime
  let difference := sub da cb
  ⟨mul aa bb, mul e ((aa + 121665 * e) % prime), mul sum sum, mul u (mul difference difference)⟩

/-- The bits of a number from bit 254 down. -/
def bits (k : Nat) : List Bool := (List.range 255).reverse.map k.testBit

/-- The ladder over the bits of `k`. -/
def ladder (k u : Nat) : Ladder :=
  (bits k).foldl (fun s bit => if bit then (s.swap.step u).swap else s.step u) ⟨1, 0, u, 1⟩

/-- A power in the field. -/
def power (a k : Nat) : Nat :=
  (bits k).foldl (fun value bit => let square := mul value value
    if bit then mul square a else square) 1

/-- A private key with its bits fixed. -/
def clamp (privKey : Bytes) : Nat :=
  number privKey % 2 ^ 254 / 8 * 8 + 2 ^ 254

/-- X25519 of a private key and a peer's public key. -/
def sharedSecret (privKey peer : Bytes) : Bytes :=
  let s := ladder (clamp privKey) (number peer % 2 ^ 255 % prime)
  numberBytes 32 (mul s.x2 (power s.z2 (prime - 2)))

set_option maxRecDepth 10000 in
example :
    (sharedSecret
      [0xa5, 0x46, 0xe3, 0x6b, 0xf0, 0x52, 0x7c, 0x9d, 0x3b, 0x16, 0x15, 0x4b, 0x82, 0x46, 0x5e, 0xdd,
        0x62, 0x14, 0x4c, 0x0a, 0xc1, 0xfc, 0x5a, 0x18, 0x50, 0x6a, 0x22, 0x44, 0xba, 0x44, 0x9a, 0xc4]
      [0xe6, 0xdb, 0x68, 0x67, 0x58, 0x30, 0x30, 0xdb, 0x35, 0x94, 0xc1, 0xa4, 0x24, 0xb1, 0x5f, 0x7c,
        0x72, 0x66, 0x24, 0xec, 0x26, 0xb3, 0x35, 0x3b, 0x10, 0xa9, 0x03, 0xa6, 0xd0, 0xab, 0x1c,
        0x4c]).take 4 = [0xc3, 0xda, 0x55, 0x37] := by decide +kernel

end X25519

/-- The calls for a private key. -/
def EvpDerive.ofPrivateKey (privKey : Bytes) : EvpDerive where
  Pkey := Bytes
  deriveInit := 1
  rawPublicKey key := if key.length = 32 then some key else none
  setPeer pkey := if pkey.isSome then 1 else 0
  deriveLength _ := (1, 32)
  malloc _ := true
  derive pkey :=
    let secret := X25519.sharedSecret privKey (pkey.getD [])
    if secret.all (· = 0) then (0, []) else (1, secret)

theorem X25519.sharedSecret_length (privKey peer : Bytes) :
    (sharedSecret privKey peer).length = 32 := by
  rw [sharedSecret, Poly1305.numberBytes, List.length_map, List.length_range]

theorem EvpDerive.ofPrivateKey_lawful (privKey : Bytes) : (ofPrivateKey privKey).Lawful where
  derive_length pkey derives := by
    simp only [ofPrivateKey] at derives ⊢
    split at derives
    · cases derives
    · rename_i nonzero
      rw [if_neg nonzero]
      exact X25519.sharedSecret_length _ _

end Clib
