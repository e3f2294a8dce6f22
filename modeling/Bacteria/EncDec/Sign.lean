/-
**`ed25519rsa`: signing and verifying as Lua scripts use it.**

libbacteria/encdec/verify/rsa_ed25519.c and libbacteria/lua/libed25519rsa.c, over the signatures of an
`EvpSign`.

* `AKeyPair` — a key pair whose parts belong together.
* `ed25519rsaSignIt`, `signIt` — signing into a buffer of `MAXRETBUF` bytes; `signIt_ed25519` and
  `signIt_rsa` — what comes out.
* `ed25519rsaVerifyIt`, `verifyIt` — verifying.
* `BindsMessage` — what a signature is for; `bindsMessage_iff` — when it does it.
-/

import Bacteria.Lib.Block
import Bacteria.Lib.EvpSign

namespace Bacteria.EncDec

open Clib

/-- `MAXRETBUF`. -/
def maxRetbuf : Nat := 65

/-- The memory behind a Lua string and its terminator, `none` when more is read. -/
def readable (text : Bytes) (count : Nat) : Option Bytes :=
  if count ≤ text.length + 1 then some ((text ++ [0]).take count) else none

section Scheme

variable (crypto : EvpSign)

/-- The public key `ed25519rsa_verifyIt` makes of its argument: raw for Ed25519, and a C string in PEM
form for RSA. -/
def signingKey (type : KeyKind) (key : Bytes) : Option crypto.PubKey :=
  match type with
  | .ed25519 => crypto.rawPublicKey key
  | .rsa => crypto.pemPublicKey (cstr key).bytes

/-- `struct aKeyPair`; `type` says what `pkey` is, and `pubKey` is its public key. -/
structure AKeyPair where
  pubKey : Bytes
  pkey : crypto.Pkey
  type : KeyKind
  kind : crypto.kind pkey = type
  matching : signingKey crypto type pubKey = some (crypto.publicOf pkey)

/-- `ed25519rsa_signIt`: the size of the signature and the buffer after it was written; `mdalgo` is `none`
for a null pointer. -/
def ed25519rsaSignIt (plaintext : Bytes) (sigret : Block) (key : crypto.Pkey)
    (mdalgo : Option Md) (type : KeyKind) : Nat × Block :=
  match type with
  | .rsa =>
    match crypto.digestSign mdalgo key plaintext with
    | some sig => (sig.length, sigret.write 0 sig)
    | none => (0, sigret)
  | .ed25519 =>
    match crypto.digestSign none key plaintext with
    | some sig =>
      -- the temporary buffer has 64 bytes, and `EVP_DigestSign` is told so
      if sig.length ≤ 64 then (sig.length, (sigret.write 0 sig).write sig.length [0])
      else (0, sigret)
    | none => (0, sigret)

/-- `ed25519rsa_verifyIt`; `none` when it reads behind its arguments. -/
def ed25519rsaVerifyIt (signature : Bytes) (signatureSize : Nat) (plaintext signingkey : Bytes)
    (signingkeySize : Nat) (mdalgo : Option Md) (type : KeyKind) : Option Int :=
  match type with
  | .ed25519 =>
    match readable signingkey signingkeySize, readable signature 64 with
    | some key, some sig =>
      match signingKey crypto .ed25519 key with
      | some pkey => some (crypto.digestVerify none pkey sig plaintext)
      | none => some (-1)
    | _, _ => none
  | .rsa =>
    match readable signature signatureSize with
    | some sig =>
      match signingKey crypto .rsa signingkey with
      | some pkey => some (crypto.digestVerify mdalgo pkey sig plaintext)
      | none => some (-1)
    | none => none

end Scheme

/-- What `signIt` returns: the signature and its size. A write behind the buffer overruns the stack. -/
inductive Signed where
  | signature (text : Bytes) (size : Nat)
  | undefined
deriving DecidableEq

/-- What `verifyIt` returns. -/
inductive Verdict where
  | nothing
  | boolean (b : Bool)
  | undefined
deriving DecidableEq

section Lua

variable {crypto : EvpSign}

/-- `retbuf` of `signIt` before the signature is written. -/
def zeroRetbuf : Block := (Block.malloc maxRetbuf).bzero maxRetbuf

/-- `signIt`. -/
def signIt (keyPair : AKeyPair crypto) (textToSign : Bytes) : Signed :=
  let signed :=
    ed25519rsaSignIt crypto (cstr textToSign).bytes zeroRetbuf keyPair.pkey (some .sha512)
      keyPair.type
  let retbuf := signed.2.write signed.1 [0]
  if retbuf.InBounds then .signature (retbuf.take signed.1) signed.1 else .undefined

variable (crypto) in
/-- `verifyIt` of six arguments. -/
def verifyIt (sign : Bytes) (sSize : Nat) (textToVerify pubKey : Bytes) (pubKeyLen : Nat)
    (isEd25519 : Bool) : Verdict :=
  match ed25519rsaVerifyIt crypto sign sSize (cstr textToVerify).bytes pubKey pubKeyLen
    (some .sha512) (if isEd25519 then .ed25519 else .rsa) with
  | some r => if r < 0 then .nothing else .boolean (r ≠ 0)
  | none => .undefined

/-- `getaPubKey`. -/
def getaPubKey (keyPair : AKeyPair crypto) : Bytes × Nat := (keyPair.pubKey, keyPair.pubKey.length)

/-- The verdict on a signature with the public key of a key pair. -/
def verdict (keyPair : AKeyPair crypto) (sign : Bytes) (sSize : Nat) (text : Bytes) : Verdict :=
  verifyIt crypto sign sSize text (getaPubKey keyPair).1 (getaPubKey keyPair).2
    (keyPair.type = .ed25519)

/-- **What a signature is for**: it is accepted for the message, and not for the other one. -/
def BindsMessage (keyPair : AKeyPair crypto) (msg other : Bytes) : Prop :=
  ∃ sign sSize, signIt keyPair msg = .signature sign sSize ∧
    verdict keyPair sign sSize msg = .boolean true ∧ verdict keyPair sign sSize other ≠ .boolean true

/-! ### Signing -/

variable {keyPair : AKeyPair crypto}

theorem zeroRetbuf_inBounds : zeroRetbuf.InBounds := by
  rw [zeroRetbuf, Block.bzero, Block.inBounds_write]
  refine ⟨Block.inBounds_malloc _, ?_⟩
  rw [List.length_replicate, Nat.zero_add]
  exact le_refl _

/-- **An Ed25519 signature** of the C string of the text fits the buffer with its terminator. -/
theorem signIt_ed25519 (lawful : crypto.Lawful) (ed : keyPair.type = .ed25519) (text : Bytes) :
    ∃ sig, crypto.digestSign none keyPair.pkey (cstr text).bytes = some sig ∧ sig.length = 64 ∧
      signIt keyPair text = .signature sig 64 := by
  obtain ⟨sig, signs, length⟩ :=
    lawful.ed25519_signs keyPair.pkey (cstr text).bytes (keyPair.kind.trans ed)
  refine ⟨sig, signs, length, ?_⟩
  have signed : ed25519rsaSignIt crypto (cstr text).bytes zeroRetbuf keyPair.pkey
      (some .sha512) keyPair.type = (64, (zeroRetbuf.write 0 sig).write 64 [0]) := by
    rw [ed]
    simp only [ed25519rsaSignIt, signs, length, le_refl, if_true]
  have inside : (((zeroRetbuf.write 0 sig).write 64 [0]).write 64 [0]).InBounds := by
    rw [Block.inBounds_write, Block.inBounds_write, Block.inBounds_write, length]
    exact ⟨⟨⟨zeroRetbuf_inBounds, by decide⟩, le_refl 65⟩, le_refl 65⟩
  have first := Block.holds_write zeroRetbuf 0 sig
  have before : 0 + sig.length ≤ 64 ∨ 64 + [(0 : Byte)].length ≤ 0 := Or.inl (by omega)
  have terminated := Block.holds_write_of_disjoint first before
  have taken := Block.take_of_holds (Block.holds_write_of_disjoint terminated before)
  rw [length] at taken
  simp only [signIt, signed, if_pos inside, taken]

/-- **An RSA signature** overruns the buffer; when signing fails the signature is empty. -/
theorem signIt_rsa (lawful : crypto.Lawful) (rsa : keyPair.type = .rsa) (text : Bytes) :
    signIt keyPair text = .undefined ∨ signIt keyPair text = .signature [] 0 := by
  cases signs : crypto.digestSign (some .sha512) keyPair.pkey (cstr text).bytes with
  | some sig =>
    have long := lawful.rsa_long keyPair.pkey _ _ (keyPair.kind.trans rsa) signs
    have signed : ed25519rsaSignIt crypto (cstr text).bytes zeroRetbuf keyPair.pkey
        (some .sha512) keyPair.type = (sig.length, zeroRetbuf.write 0 sig) := by
      rw [rsa]
      simp only [ed25519rsaSignIt, signs]
    have overrun : ¬ ((zeroRetbuf.write 0 sig).write sig.length [0]).InBounds := by
      rw [Block.inBounds_write, Block.inBounds_write]
      rintro ⟨⟨_, fits⟩, _⟩
      have size : zeroRetbuf.size = 65 := rfl
      omega
    left
    simp only [signIt, signed, if_neg overrun]
  | none =>
    have signed : ed25519rsaSignIt crypto (cstr text).bytes zeroRetbuf keyPair.pkey
        (some .sha512) keyPair.type = (0, zeroRetbuf) := by
      rw [rsa]
      simp only [ed25519rsaSignIt, signs]
    have inside : (zeroRetbuf.write 0 [0]).InBounds := by
      rw [Block.inBounds_write]
      exact ⟨zeroRetbuf_inBounds, by decide⟩
    right
    simp only [signIt, signed, if_pos inside]
    rfl

/-! ### Verifying -/

theorem readable_length (text : Bytes) : readable text text.length = some text := by
  rw [readable, if_pos (Nat.le_succ _), List.take_left]

/-- Only 1 is accepted. -/
theorem accepted_iff {r : Int} (bound : r ≤ 1) :
    (if r < 0 then Verdict.nothing else .boolean (r ≠ 0)) = .boolean true ↔ r = 1 := by
  by_cases negative : r < 0
  · rw [if_pos negative]
    constructor
    · intro same
      cases same
    · intro one
      omega
  · rw [if_neg negative, Verdict.boolean.injEq, decide_eq_true_iff]
    omega

/-- The verdict on an Ed25519 signature is that on the C string of the text. -/
theorem verdict_ed25519 (lawful : crypto.Lawful) (ed : keyPair.type = .ed25519) {sig : Bytes}
    (length : sig.length = 64) (text : Bytes) :
    verdict keyPair sig 64 text = .boolean true ↔
      crypto.digestVerify none (crypto.publicOf keyPair.pkey) sig (cstr text).bytes = 1 := by
  have matching := keyPair.matching
  have signature := readable_length sig
  rw [ed] at matching
  rw [length] at signature
  have returned : ed25519rsaVerifyIt crypto sig 64 (cstr text).bytes keyPair.pubKey
      keyPair.pubKey.length (some .sha512) .ed25519 =
        some (crypto.digestVerify none (crypto.publicOf keyPair.pkey) sig (cstr text).bytes) := by
    simp only [ed25519rsaVerifyIt, readable_length, signature, matching]
  simp only [verdict, getaPubKey, verifyIt, ed, decide_true, if_true, returned]
  exact accepted_iff (lawful.verify_le_one _ _ _ _)

/-- An empty RSA signature is not accepted. -/
theorem verdict_rsa_empty (lawful : crypto.Lawful) (rsa : keyPair.type = .rsa) (text : Bytes) :
    verdict keyPair [] 0 text ≠ .boolean true := by
  have matching := keyPair.matching
  rw [rsa] at matching
  have nothing : readable [] 0 = some [] := readable_length []
  have returned : ed25519rsaVerifyIt crypto [] 0 (cstr text).bytes keyPair.pubKey
      keyPair.pubKey.length (some .sha512) .rsa =
        some (crypto.digestVerify (some .sha512) (crypto.publicOf keyPair.pkey) []
          (cstr text).bytes) := by
    simp only [ed25519rsaVerifyIt, nothing, matching]
  have type : decide (keyPair.type = .ed25519) = false := by
    rw [rsa]
    rfl
  simp only [verdict, getaPubKey, verifyIt, type, Bool.false_eq_true, if_false, returned]
  intro accepted
  exact lawful.rsa_empty _ _ ((accepted_iff (lawful.verify_le_one _ _ _ _)).mp accepted)

/-- **When a signature binds its message** against another one: for an Ed25519 key, and messages that
differ before their first NUL. -/
theorem bindsMessage_iff (lawful : crypto.Lawful) {msg other : Bytes}
    (separates : keyPair.type = .ed25519 →
      crypto.Separates keyPair.pkey (cstr msg).bytes (cstr other).bytes) :
    BindsMessage keyPair msg other ↔ keyPair.type = .ed25519 ∧ cstr msg ≠ cstr other := by
  constructor
  · rintro ⟨sign, sSize, signed, accepted, rejected⟩
    cases type : keyPair.type with
    | ed25519 =>
      refine ⟨rfl, fun same => rejected ?_⟩
      rw [verdict, verifyIt, ← same]
      exact accepted
    | rsa =>
      rcases signIt_rsa lawful type msg with overrun | empty
      · rw [overrun] at signed
        cases signed
      · rw [empty] at signed
        cases signed
        exact absurd accepted (verdict_rsa_empty lawful type msg)
  · rintro ⟨ed, different⟩
    obtain ⟨sig, signs, length, signed⟩ := signIt_ed25519 lawful ed msg
    refine ⟨sig, 64, signed, (verdict_ed25519 lawful ed length msg).mpr ?_, fun accepted => ?_⟩
    · exact lawful.ed25519_verifies keyPair.pkey _ _ (keyPair.kind.trans ed) signs
    · have verified := (verdict_ed25519 lawful ed length other).mp accepted
      exact different (CString.ext (separates ed sig signs verified).symm)

/-- A key pair to compute with. -/
def samplePair : AKeyPair EvpSign.copying where
  pubKey := List.replicate 32 7
  pkey := .ed25519
  type := .ed25519
  kind := rfl
  matching := rfl

/-- Two messages without NUL. -/
theorem bindsMessage_iff_sample : BindsMessage samplePair (ascii "testMsg") (ascii "textMsg") :=
  (bindsMessage_iff EvpSign.copying_lawful
    fun _ => EvpSign.copying_separates (by decide)).mpr ⟨rfl, by decide⟩

/-- Messages that differ behind a NUL: the signature for the one is accepted for the other. -/
theorem nulMessages_confused :
    EvpSign.copying.Lawful ∧
      EvpSign.copying.Separates samplePair.pkey [97, 0, 98] [97, 0, 99] ∧
      ([97, 0, 98] : Bytes) ≠ [97, 0, 99] ∧
      signIt samplePair [97, 0, 98] = .signature (EvpSign.startOf 64 [97]) 64 ∧
      verdict samplePair (EvpSign.startOf 64 [97]) 64 [97, 0, 99] = .boolean true :=
  ⟨EvpSign.copying_lawful, EvpSign.copying_separates (by decide), by decide, by decide,
    by decide⟩

end Lua

end Bacteria.EncDec
