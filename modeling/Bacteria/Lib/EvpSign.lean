/-
**Signatures as the EVP layer of OpenSSL offers them.**

* `KeyKind` — Ed25519 or RSA; `EvpSign` — keys, and what `EVP_DigestSign` and `EVP_DigestVerify` and
  their stepwise forms make of a text.
* `EvpSign.Lawful` — the documented facts: sizes, and that a key accepts its own signatures.
* `EvpSign.Separates` — that a signature for one text is not accepted for another one.
* `EvpSign.RsaModulus` — how long an RSA signature is, and for which digests and keys there is none.
* `EvpSign.copying` — a scheme whose signature is the start of the text, to compute with.
-/

import Bacteria.Lib.CString

namespace Clib

/-- `EVP_PKEY_ED25519` and `EVP_PKEY_RSA`. -/
inductive KeyKind where
  | ed25519
  | rsa
deriving DecidableEq

/-- A message digest for the schemes that take one: SHA-512, or another one by its number. -/
inductive Md where
  | sha512
  | other (nid : Nat)
deriving DecidableEq

/-- Keys and signatures. Signing fails with `none`; a verification returns 1 for a signature that
fits, 0 for one that does not, and a negative number for an error. Without a digest, a key takes its
default one. -/
structure EvpSign where
  Pkey : Type
  PubKey : Type
  kind : Pkey → KeyKind
  publicOf : Pkey → PubKey
  /-- `EVP_PKEY_new_raw_public_key` for Ed25519. -/
  rawPublicKey : Bytes → Option PubKey
  /-- `PEM_read_bio_RSA_PUBKEY`. -/
  pemPublicKey : Bytes → Option PubKey
  digestSign : Option Md → Pkey → Bytes → Option Bytes
  digestVerify : Option Md → PubKey → Bytes → Bytes → Int

namespace EvpSign

/-- The documented facts. A SHA-512 signature needs an RSA modulus of 94 bytes at least, and is as long
as the modulus. -/
structure Lawful (crypto : EvpSign) : Prop where
  ed25519_signs : ∀ pkey text, crypto.kind pkey = .ed25519 →
    ∃ signature, crypto.digestSign none pkey text = some signature ∧ signature.length = 64
  ed25519_verifies : ∀ pkey text signature, crypto.kind pkey = .ed25519 →
    crypto.digestSign none pkey text = some signature →
      crypto.digestVerify none (crypto.publicOf pkey) signature text = 1
  rsa_long : ∀ pkey text signature, crypto.kind pkey = .rsa →
    crypto.digestSign (some .sha512) pkey text = some signature → 94 ≤ signature.length
  rsa_empty : ∀ key text, crypto.digestVerify (some .sha512) key [] text ≠ 1
  verify_le_one : ∀ digest key signature text, crypto.digestVerify digest key signature text ≤ 1

/-- The Ed25519 signature for one text is not accepted for the other one, unless they are equal. -/
def Separates (crypto : EvpSign) (pkey : crypto.Pkey) (text other : Bytes) : Prop :=
  ∀ signature, crypto.digestSign none pkey text = some signature →
    crypto.digestVerify none (crypto.publicOf pkey) signature other = 1 → other = text

/-- A modulus of `n` bytes takes the encoded digest, of `size` bytes, and the 11 bytes of padding of
PKCS#1 v1.5; a digest without an encoding is taken by none. -/
def Takes (encoded : Option Md → Option Nat) (digest : Option Md) (n : Nat) : Prop :=
  ∃ size, encoded digest = some size ∧ size + 11 ≤ n

/-- An RSA signature is as long as the modulus; there is none for a modulus that does not take the
digest. `encoded` is how long a digest is with its name: 64 and 19 bytes for SHA-512. -/
structure RsaModulus (crypto : EvpSign) (modulus : crypto.Pkey → Nat)
    (encoded : Option Md → Option Nat) : Prop where
  sha512 : encoded (some .sha512) = some 83
  signs : ∀ digest pkey text, crypto.kind pkey = .rsa → Takes encoded digest (modulus pkey) →
    ∃ signature, crypto.digestSign digest pkey text = some signature ∧
      signature.length = modulus pkey
  fails : ∀ digest pkey text, crypto.kind pkey = .rsa → ¬ Takes encoded digest (modulus pkey) →
    crypto.digestSign digest pkey text = none

/-- A modulus that takes a digest is longer than the padding. -/
theorem Takes.padding {encoded : Option Md → Option Nat} {digest : Option Md} {n : Nat}
    (takes : Takes encoded digest n) : 11 ≤ n := by
  obtain ⟨size, _, fits⟩ := takes
  omega

/-- **SHA-512 is signed with a modulus of 94 bytes and more.** -/
theorem RsaModulus.takes_sha512_iff {crypto : EvpSign} {modulus : crypto.Pkey → Nat}
    {encoded : Option Md → Option Nat} (sizes : crypto.RsaModulus modulus encoded) {n : Nat} :
    Takes encoded (some .sha512) n ↔ 94 ≤ n := by
  constructor
  · rintro ⟨size, found, fits⟩
    obtain rfl := Option.some.inj (sizes.sha512.symm.trans found)
    exact fits
  · exact fun long => ⟨83, sizes.sha512, long⟩

/-- The start of a text, filled up with zeroes. -/
def startOf (size : Nat) (text : Bytes) : Bytes := (text ++ List.replicate size 0).take size

theorem startOf_length (size : Nat) (text : Bytes) : (startOf size text).length = size := by
  rw [startOf, List.length_take, List.length_append, List.length_replicate]
  omega

/-- How long a signature of `copying` is. -/
def copiedSize : KeyKind → Nat
  | .ed25519 => 64
  | .rsa => 256

/-- Signatures that repeat the start of the text. -/
def copying : EvpSign where
  Pkey := KeyKind
  PubKey := KeyKind
  kind pkey := pkey
  publicOf pkey := pkey
  rawPublicKey key := if key.length = 32 then some .ed25519 else none
  pemPublicKey _ := some .rsa
  digestSign _ pkey text := some (startOf (copiedSize pkey) text)
  digestVerify _ key signature text := if signature = startOf (copiedSize key) text then 1 else 0

theorem copying_lawful : copying.Lawful where
  ed25519_signs pkey text ed := by
    obtain rfl : pkey = .ed25519 := ed
    exact ⟨_, rfl, startOf_length 64 text⟩
  ed25519_verifies pkey text signature _ signs := if_pos (Option.some.inj signs).symm
  rsa_long pkey text signature rsa signs := by
    obtain rfl : pkey = .rsa := rsa
    obtain rfl := Option.some.inj signs
    rw [startOf_length, copiedSize]
    omega
  rsa_empty key text := by
    have different : [] ≠ startOf (copiedSize key) text := by
      intro empty
      have long := startOf_length (copiedSize key) text
      rw [← empty] at long
      cases key <;> cases long
    simp only [copying, if_neg different]
    decide
  verify_le_one digest key signature text := by
    simp only [copying]
    split
    · exact Int.le_refl 1
    · exact Int.one_nonneg

/-- How long a digest is with its name, when every other one has 32 bytes. -/
def sampleEncoded (digest : Option Md) : Option Nat :=
  if digest = some .sha512 then some 83 else some 51

/-- Its RSA keys have 256 bytes. -/
theorem copying_modulus : copying.RsaModulus (fun _ => 256) sampleEncoded where
  sha512 := rfl
  signs _ pkey text rsa _ := by
    obtain rfl : pkey = .rsa := rsa
    exact ⟨_, rfl, startOf_length 256 text⟩
  fails digest _ _ _ short := by
    refine absurd ?_ short
    by_cases sha : digest = some .sha512
    · exact ⟨83, if_pos sha, by decide⟩
    · exact ⟨51, if_neg sha, by decide⟩

/-- Texts that differ in their first 64 bytes are told apart. -/
theorem copying_separates {text other : Bytes} (different : startOf 64 text ≠ startOf 64 other) :
    copying.Separates .ed25519 text other := by
  intro signature signs accepted
  obtain rfl := Option.some.inj signs
  have rejected : copying.digestVerify none .ed25519 (startOf 64 text) other = 0 := if_neg different
  exact absurd (rejected.symm.trans accepted) (by decide)

end EvpSign

end Clib
