/-
**The buffers for a signature.**

`ed25519rsa_signIt` writes as much as the key gives; its two callers choose the buffer.

* `Caller` — `signIt` of libbacteria/lua/libed25519rsa.c, with `retbuf`, and `basic_verify::sign` of
  src/protocolcxx/ed25519rsa.cpp, with the block of `initSigPtr`.
* `Caller.signed` — the buffer of a caller after the call; `signIt_eq_signed` ties it to `signIt`.
* `signed_ed25519`, `signed_rsa`, `signed_nothing` — what is written for each kind of key.
* `Caller.HasRoom`, `signatureFits_iff` — for which keys and digests the buffer is large enough.
-/

import Bacteria.EncDec.Sign

namespace Bacteria.EncDec

open Clib

/-- `initSigPtr`: `new uint8_t(keySize)` is one byte with that value. -/
def initSigPtr (keySize : Nat) : Block := (Block.malloc 1).write 0 [UInt8.ofNat keySize]

/-- A call of `ed25519rsa_signIt`, with the arguments that its caller chooses. -/
inductive Caller where
  | signIt
  | basicVerifySign (retSize : Nat) (mdalgo : Option Md)

/-- The digest that a caller asks for. -/
def Caller.digest : Caller → Option Md
  | signIt => some .sha512
  | basicVerifySign _ mdalgo => mdalgo

section Callers

variable {crypto : EvpSign} {keyPair : AKeyPair crypto}

/-- The buffer of a caller after the call. `signIt` signs the C string of its text and ends its buffer
with a NUL; `basic_verify::sign` signs all of its string. -/
def Caller.signed (keyPair : AKeyPair crypto) (text : Bytes) : Caller → Block
  | signIt =>
    let signed := ed25519rsaSignIt crypto (cstr text).bytes zeroRetbuf keyPair.pkey (some .sha512)
      keyPair.type
    signed.2.write signed.1 [0]
  | basicVerifySign retSize mdalgo =>
    (ed25519rsaSignIt crypto text (initSigPtr retSize) keyPair.pkey mdalgo keyPair.type).2

/-- **What is written fits the buffer of the caller.** -/
def Caller.Fits (caller : Caller) (keyPair : AKeyPair crypto) (text : Bytes) : Prop :=
  (caller.signed keyPair text).InBounds

/-- The result of `signIt` is taken from this buffer. -/
theorem signIt_eq_signed (keyPair : AKeyPair crypto) (text : Bytes) :
    signIt keyPair text ≠ .undefined ↔ Caller.signIt.Fits keyPair text := by
  rw [Caller.Fits, Caller.signed, signIt]
  split
  · rename_i inside
    exact ⟨fun _ => inside, fun _ same => by cases same⟩
  · rename_i outside
    exact ⟨fun differs => absurd rfl differs, fun inside => absurd inside outside⟩

/-! ### What is written -/

theorem initSigPtr_inBounds (keySize : Nat) : (initSigPtr keySize).InBounds := by
  rw [initSigPtr, Block.inBounds_write]
  exact ⟨Block.inBounds_malloc 1, le_refl 1⟩

/-- An Ed25519 signature and its terminator. -/
theorem signed_ed25519 (lawful : crypto.Lawful) (ed : keyPair.type = .ed25519) (text : Bytes)
    (sigret : Block) (mdalgo : Option Md) :
    ∃ sig, sig.length = 64 ∧
      ed25519rsaSignIt crypto text sigret keyPair.pkey mdalgo .ed25519 =
        (64, (sigret.write 0 sig).write 64 [0]) := by
  obtain ⟨sig, signs, length⟩ :=
    lawful.ed25519_signs keyPair.pkey text (keyPair.kind.trans ed)
  refine ⟨sig, length, ?_⟩
  simp only [ed25519rsaSignIt, signs, length, le_refl, if_true]

variable {modulus : crypto.Pkey → Nat} {encoded : Option Md → Option Nat} {mdalgo : Option Md}

/-- An RSA signature, without a terminator. -/
theorem signed_rsa (sizes : crypto.RsaModulus modulus encoded) (rsa : keyPair.type = .rsa)
    (takes : EvpSign.Takes encoded mdalgo (modulus keyPair.pkey)) (text : Bytes)
    (sigret : Block) :
    ∃ sig, sig.length = modulus keyPair.pkey ∧
      ed25519rsaSignIt crypto text sigret keyPair.pkey mdalgo .rsa =
        (modulus keyPair.pkey, sigret.write 0 sig) := by
  obtain ⟨sig, signs, length⟩ :=
    sizes.signs mdalgo keyPair.pkey text (keyPair.kind.trans rsa) takes
  refine ⟨sig, length, ?_⟩
  simp only [ed25519rsaSignIt, signs, length]

/-- Nothing, for a modulus that does not take the digest. -/
theorem signed_nothing (sizes : crypto.RsaModulus modulus encoded) (rsa : keyPair.type = .rsa)
    (small : ¬ EvpSign.Takes encoded mdalgo (modulus keyPair.pkey)) (text : Bytes)
    (sigret : Block) :
    ed25519rsaSignIt crypto text sigret keyPair.pkey mdalgo .rsa = (0, sigret) := by
  simp only [ed25519rsaSignIt,
    sizes.fails mdalgo keyPair.pkey text (keyPair.kind.trans rsa) small]

/-! ### Room for it -/

/-- An RSA key that gives no signature of the digest. -/
def Silent (modulus : crypto.Pkey → Nat) (encoded : Option Md → Option Nat)
    (keyPair : AKeyPair crypto) (digest : Option Md) : Prop :=
  keyPair.type = .rsa ∧ ¬ EvpSign.Takes encoded digest (modulus keyPair.pkey)

/-- The keys a caller's buffer is large enough for. -/
def Caller.HasRoom (modulus : crypto.Pkey → Nat) (encoded : Option Md → Option Nat)
    (keyPair : AKeyPair crypto) (caller : Caller) : Prop :=
  Silent modulus encoded keyPair caller.digest ∨
    caller = .signIt ∧ keyPair.type = .ed25519

theorem signIt_fits_iff (lawful : crypto.Lawful) (sizes : crypto.RsaModulus modulus encoded)
    (keyPair : AKeyPair crypto) (text : Bytes) :
    Caller.signIt.Fits keyPair text ↔ Caller.signIt.HasRoom modulus encoded keyPair := by
  have retbuf : zeroRetbuf.size = 65 := rfl
  rw [Caller.Fits, Caller.signed, Caller.HasRoom, Silent, Caller.digest]
  cases type : keyPair.type with
  | ed25519 =>
    obtain ⟨sig, length, signed⟩ :=
      signed_ed25519 lawful type (cstr text).bytes zeroRetbuf (some .sha512)
    simp only [signed, Block.inBounds_write, Block.write_size, retbuf, length,
      List.length_singleton, zeroRetbuf_inBounds, and_self, or_true, iff_true, true_and]
    decide
  | rsa =>
    by_cases takes : EvpSign.Takes encoded (some .sha512) (modulus keyPair.pkey)
    · obtain ⟨sig, length, signed⟩ := signed_rsa sizes type takes (cstr text).bytes zeroRetbuf
      have large := sizes.takes_sha512_iff.mp takes
      simp only [signed, Block.inBounds_write, Block.write_size, retbuf, length, takes, not_true,
        and_false, reduceCtorEq, or_false, iff_false, not_and, List.length_singleton]
      omega
    · have signed := signed_nothing sizes type takes (cstr text).bytes zeroRetbuf
      simp only [signed, Block.inBounds_write, retbuf, List.length_singleton, zeroRetbuf_inBounds,
        takes, not_false_eq_true, and_self, true_or, iff_true, true_and]
      decide

theorem basicVerifySign_fits_iff (lawful : crypto.Lawful)
    (sizes : crypto.RsaModulus modulus encoded) (retSize : Nat) (mdalgo : Option Md)
    (keyPair : AKeyPair crypto) (text : Bytes) :
    (Caller.basicVerifySign retSize mdalgo).Fits keyPair text ↔
      (Caller.basicVerifySign retSize mdalgo).HasRoom modulus encoded keyPair := by
  have oneByte : (initSigPtr retSize).size = 1 := rfl
  rw [Caller.Fits, Caller.signed, Caller.HasRoom, Silent, Caller.digest]
  cases type : keyPair.type with
  | ed25519 =>
    obtain ⟨sig, length, signed⟩ := signed_ed25519 lawful type text (initSigPtr retSize) mdalgo
    simp only [signed, Block.inBounds_write, Block.write_size, oneByte, length, reduceCtorEq,
      false_and, or_false, iff_false, not_and, List.length_singleton]
    omega
  | rsa =>
    by_cases takes : EvpSign.Takes encoded mdalgo (modulus keyPair.pkey)
    · obtain ⟨sig, length, signed⟩ := signed_rsa sizes type takes text (initSigPtr retSize)
      have large := takes.padding
      simp only [signed, Block.inBounds_write, oneByte, length, takes, not_true, and_false,
        reduceCtorEq, or_false, iff_false, not_and]
      omega
    · have signed := signed_nothing sizes type takes text (initSigPtr retSize)
      simp only [signed, initSigPtr_inBounds, takes, not_false_eq_true, and_self, true_or]

/-- **When a signature fits the buffer of its caller**: `retbuf` has room for Ed25519 signatures, and
either buffer for the keys that give no signature at all. -/
theorem signatureFits_iff (lawful : crypto.Lawful) (sizes : crypto.RsaModulus modulus encoded)
    (caller : Caller) (keyPair : AKeyPair crypto) (text : Bytes) :
    caller.Fits keyPair text ↔ caller.HasRoom modulus encoded keyPair := by
  cases caller with
  | signIt => exact signIt_fits_iff lawful sizes keyPair text
  | basicVerifySign retSize mdalgo =>
    exact basicVerifySign_fits_iff lawful sizes retSize mdalgo keyPair text

/-- An Ed25519 signature in `retbuf`. -/
theorem signatureFits_iff_sample : Caller.signIt.Fits samplePair (ascii "testMsg") :=
  (signatureFits_iff EvpSign.copying_lawful EvpSign.copying_modulus .signIt samplePair
    (ascii "testMsg")).mpr (Or.inr ⟨rfl, rfl⟩)

/-- An RSA key pair of 2048 bits. -/
def sampleRsaPair : AKeyPair EvpSign.copying where
  pubKey := []
  pkey := .rsa
  type := .rsa
  kind := rfl
  matching := rfl

/-- **An Ed25519 signature in the block of `initSigPtr`, and an RSA signature in `retbuf`.** -/
theorem signature_overruns :
    ¬ (Caller.basicVerifySign 65 (some .sha512)).Fits samplePair (ascii "testMsg") ∧
      ¬ Caller.signIt.Fits sampleRsaPair (ascii "testMsg") := by
  constructor
  · rw [basicVerifySign_fits_iff EvpSign.copying_lawful EvpSign.copying_modulus]
    rintro (⟨rsa, _⟩ | ⟨caller, _⟩)
    · cases rsa
    · cases caller
  · rw [signIt_fits_iff EvpSign.copying_lawful EvpSign.copying_modulus]
    rintro (⟨_, silent⟩ | ⟨_, ed⟩)
    · exact silent (EvpSign.copying_modulus.takes_sha512_iff.mpr (by decide))
    · cases ed

end Callers

end Bacteria.EncDec
