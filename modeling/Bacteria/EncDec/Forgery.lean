/-
**Altered ChaCha20-Poly1305 data.**

`chacha20_poly1305_encrypt` and `chacha20_poly1305_decrypt` over the contexts of an authenticated
cipher: neither gets the tag of an encryption nor sets one for a decryption.

* `chacha20Poly1305Encrypt`, `chacha20Poly1305Decrypt` — the two functions; `none` is a call with a
  negative length that the library does not refuse.
* `decrypt_accepts` — any data of a length that is not negative as an `int` is decrypted.
* `Authenticates` — what an authenticated cipher is for; `authenticates_iff` — when the two functions
  give it.
-/

import Bacteria.EncDec.Aes
import Bacteria.Lib.EvpAead

namespace Bacteria.EncDec

open Clib

section Wrappers

variable (aead : Aead)

/-- What a call with a negative length returns. -/
def negativeLength : Option (Int × Bytes) := if aead.refusesNegative then some (-1, []) else none

/-- `chacha20_poly1305_encrypt`: what it returns, and the bytes it writes at `ciphertext`. The context
of the encryption is freed, and with it the tag. -/
def chacha20Poly1305Encrypt (plaintext : Bytes) (plaintextLen : Int) (key iv : CString) :
    Option (Int × Bytes) :=
  if badSizes key iv then some (-1, [])
  else if plaintextLen < 0 then negativeLength aead
  else
    let ciphertext :=
      (CipherCtx.encryptOnce aead key.bytes iv.bytes (plaintext.take plaintextLen.toNat)).1
    some (toInt ciphertext.length, ciphertext)

/-- `chacha20_poly1305_decrypt`: no tag is set in its context. -/
def chacha20Poly1305Decrypt (ciphertext : Bytes) (ciphertextLen : Int) (key iv : CString) :
    Option (Int × Bytes) :=
  if badSizes key iv then some (-1, [])
  else if ciphertextLen < 0 then negativeLength aead
  else
    match CipherCtx.decryptOnce aead key.bytes iv.bytes none
      (ciphertext.take ciphertextLen.toNat) with
    | some plaintext => some (toInt plaintext.length, plaintext)
    | none => some (-1, [])

/-- The call for a whole message, its length passed as an `int`. -/
def encryptMessage (key iv : CString) (m : Bytes) : Option (Int × Bytes) :=
  chacha20Poly1305Encrypt aead m (toInt m.length) key iv

/-- The call for whole data. -/
def decryptData (key iv : CString) (c : Bytes) : Option (Int × Bytes) :=
  chacha20Poly1305Decrypt aead c (toInt c.length) key iv

/-- `c` is the data that an encryption makes of `m`. -/
def Makes (key iv : CString) (m c : Bytes) : Prop :=
  ∃ size, 0 ≤ size ∧ encryptMessage aead key iv m = some (size, c)

/-- The decryption of `c` returns an error. -/
def Refuses (key iv : CString) (c : Bytes) : Prop :=
  ∃ out, decryptData aead key iv c = some out ∧ out.1 < 0

end Wrappers

section Forgery

variable {aead : Aead} {key iv : CString}

/-! ### The two functions -/

/-- **Any data is decrypted**, as far as its length goes into an `int`. -/
theorem decrypt_accepts (sizes : badSizes key iv = false) {c : Bytes}
    (nonneg : 0 ≤ toInt c.length) :
    decryptData aead key iv c =
      some (toInt (aead.decipher key.bytes iv.bytes (c.take (toInt c.length).toNat)).length,
        aead.decipher key.bytes iv.bytes (c.take (toInt c.length).toNat)) := by
  rw [decryptData, chacha20Poly1305Decrypt, sizes, if_neg Bool.false_ne_true,
    if_neg (not_lt.mpr nonneg), CipherCtx.decryptOnce_of_untagged]

theorem decrypt_negative (sizes : badSizes key iv = false) {c : Bytes}
    (negative : toInt c.length < 0) : decryptData aead key iv c = negativeLength aead := by
  rw [decryptData, chacha20Poly1305Decrypt, sizes, if_neg Bool.false_ne_true, if_pos negative]

theorem negativeLength_eq_some {out : Int × Bytes} :
    negativeLength aead = some out ↔ aead.refusesNegative ∧ out = (-1, []) := by
  rw [negativeLength]
  cases aead.refusesNegative <;> simp [eq_comm]

/-- What a decryption returns is not negative as an `int`, whatever the data. -/
theorem decrypted_size (laws : aead.Lawful) (sizes : badSizes key iv = false) {c : Bytes}
    (nonneg : 0 ≤ toInt c.length) {out : Int × Bytes}
    (found : decryptData aead key iv c = some out) :
    0 ≤ out.1 ∧ out.2.length < 2 ^ 31 := by
  have whole := toInt_le c.length
  have below := toInt_lt c.length
  have taken : (c.take (toInt c.length).toNat).length = (toInt c.length).toNat := by
    rw [List.length_take]
    omega
  rw [decrypt_accepts sizes nonneg] at found
  obtain rfl := Option.some.inj found
  simp only [laws.decipher_length, taken]
  have small : (toInt c.length).toNat < 2 ^ 31 := by omega
  rw [toInt_of_lt small]
  omega

/-- **A decryption is refused exactly for a length that is negative as an `int`**, by a library that
refuses it. -/
theorem refuses_iff (laws : aead.Lawful) (sizes : badSizes key iv = false) (c : Bytes) :
    Refuses aead key iv c ↔ toInt c.length < 0 ∧ aead.refusesNegative := by
  constructor
  · rintro ⟨out, found, failed⟩
    by_cases negative : toInt c.length < 0
    · rw [decrypt_negative sizes negative] at found
      exact ⟨negative, (negativeLength_eq_some.mp found).1⟩
    · have size := decrypted_size laws sizes (not_lt.mp negative) found
      omega
  · rintro ⟨negative, refuses⟩
    refine ⟨(-1, []), ?_, by decide⟩
    rw [decrypt_negative sizes negative]
    exact negativeLength_eq_some.mpr ⟨refuses, rfl⟩

/-- What an encryption makes of a message whose length is an `int`. -/
theorem encryptMessage_eq (laws : aead.Lawful) (sizes : badSizes key iv = false) {m : Bytes}
    (short : m.length < 2 ^ 31) :
    encryptMessage aead key iv m =
      some ((m.length : Int), aead.encipher key.bytes iv.bytes m) := by
  rw [encryptMessage, chacha20Poly1305Encrypt, sizes, if_neg Bool.false_ne_true,
    toInt_of_lt short, if_neg (by omega), Int.toNat_natCast, List.take_length,
    CipherCtx.encryptOnce_bytes]
  simp only [laws.encipher_length, toInt_of_lt short]

theorem makes_iff (laws : aead.Lawful) (sizes : badSizes key iv = false) {m c : Bytes}
    (short : m.length < 2 ^ 31) :
    Makes aead key iv m c ↔ c = aead.encipher key.bytes iv.bytes m := by
  rw [Makes, encryptMessage_eq laws sizes short]
  constructor
  · rintro ⟨size, _, same⟩
    exact (Prod.mk.inj (Option.some.inj same)).2.symm
  · rintro rfl
    exact ⟨_, Int.natCast_nonneg _, rfl⟩

/-- **Unaltered data decrypts to its message.** -/
theorem decrypt_encrypted (laws : aead.Lawful) (sizes : badSizes key iv = false) {m : Bytes}
    (short : m.length < 2 ^ 31) :
    decryptData aead key iv (aead.encipher key.bytes iv.bytes m) =
      some ((m.length : Int), m) := by
  have whole : toInt (aead.encipher key.bytes iv.bytes m).length = m.length := by
    rw [laws.encipher_length, toInt_of_lt short]
  have taken : (aead.encipher key.bytes iv.bytes m).take m.length =
      aead.encipher key.bytes iv.bytes m := by
    rw [← laws.encipher_length key.bytes iv.bytes m, List.take_length]
  rw [decrypt_accepts sizes (by omega), whole, Int.toNat_natCast, taken, laws.decipher_encipher,
    toInt_of_lt short]

/-! ### What an authenticated cipher is for -/

/-- **Data that was not made by an encryption is refused, and what was made of `m` gives `m` back.**
`history` are the messages that were encrypted under the key and the initialisation vector. -/
structure Authenticates (aead : Aead) (key iv : CString) (history : List Bytes) (m c : Bytes) :
    Prop where
  altered : ¬ Makes aead key iv m c → (∀ other ∈ history, ¬ Makes aead key iv other c) →
    Refuses aead key iv c
  unaltered : ∃ data, Makes aead key iv m data ∧
    decryptData aead key iv data = some ((m.length : Int), m)

/-- A forgery: data that no encryption made. -/
def Forged (aead : Aead) (key iv : CString) (history : List Bytes) (m c : Bytes) : Prop :=
  ∀ other ∈ m :: history, ¬ Makes aead key iv other c

/-- What a decryption gives is shorter than 2 GiB. -/
theorem decrypted_length_lt (laws : aead.Lawful) (sizes : badSizes key iv = false) {c : Bytes}
    {out : Int × Bytes} (found : decryptData aead key iv c = some out) :
    out.2.length < 2 ^ 31 := by
  by_cases negative : toInt c.length < 0
  · rw [decrypt_negative sizes negative] at found
    obtain ⟨_, rfl⟩ := negativeLength_eq_some.mp found
    exact Nat.two_pow_pos 31
  · exact (decrypted_size laws sizes (not_lt.mp negative) found).2

/-- **When the two functions authenticate**: for a message whose length is an `int`, and for data that
is no forgery, or whose length is negative as an `int` when the library refuses that. -/
theorem authenticates_iff (laws : aead.Lawful) (keySize : key.strlen = 32) (ivSize : iv.strlen = 16)
    (history : List Bytes) (m c : Bytes) :
    Authenticates aead key iv history m c ↔
      m.length < 2 ^ 31 ∧
        (Forged aead key iv history m c → toInt c.length < 0 ∧ aead.refusesNegative) := by
  have sizes := badSizes_eq_false.mpr ⟨keySize, ivSize⟩
  constructor
  · intro authenticates
    obtain ⟨data, _, decrypts⟩ := authenticates.unaltered
    refine ⟨decrypted_length_lt laws sizes decrypts, fun forged => ?_⟩
    rw [← refuses_iff laws sizes]
    exact authenticates.altered (forged m List.mem_cons_self)
      fun other member => forged other (List.mem_cons_of_mem m member)
  · rintro ⟨short, refused⟩
    refine ⟨fun differs unproduced => ?_, _, (makes_iff laws sizes short).mpr rfl,
      decrypt_encrypted laws sizes short⟩
    rw [refuses_iff laws sizes]
    refine refused fun other member => ?_
    rcases List.mem_cons.mp member with rfl | member
    · exact differs
    · exact unproduced other member

/-- A key and an initialisation vector of the right sizes, as C strings. -/
def sampleCKey : CString := ⟨List.replicate 32 97, by decide⟩

def sampleCIv : CString := ⟨List.replicate 16 98, by decide⟩

/-- Data that was made of the message is no forgery. -/
theorem authenticates_iff_sample :
    Authenticates Aead.chacha20Poly1305 sampleCKey sampleCIv [] (ascii "hello")
      (Aead.chacha20Poly1305.encipher sampleCKey.bytes sampleCIv.bytes (ascii "hello")) :=
  (authenticates_iff Aead.chacha20Poly1305_lawful (by decide) (by decide) [] (ascii "hello") _).mpr
    ⟨by decide, fun forged => absurd
      ((makes_iff Aead.chacha20Poly1305_lawful (by decide) (by decide)).mpr rfl)
      (forged (ascii "hello") List.mem_cons_self)⟩

/-- **A forgery of one byte**: with nothing but `hello` encrypted, any byte decrypts. -/
theorem forgery_accepted :
    Forged Aead.chacha20Poly1305 sampleCKey sampleCIv [] (ascii "hello") [0] ∧
      (∃ plain, decryptData Aead.chacha20Poly1305 sampleCKey sampleCIv [0] = some (1, plain)) ∧
      ¬ Authenticates Aead.chacha20Poly1305 sampleCKey sampleCIv [] (ascii "hello") [0] := by
  have sizes : badSizes sampleCKey sampleCIv = false := by decide
  have laws := Aead.chacha20Poly1305_lawful
  have nonneg : 0 ≤ toInt ([0] : Bytes).length := by decide
  have forged : Forged Aead.chacha20Poly1305 sampleCKey sampleCIv [] (ascii "hello") [0] := by
    intro other member made
    obtain rfl := List.mem_singleton.mp member
    have lengths := congrArg List.length ((makes_iff laws sizes (by decide)).mp made)
    rw [laws.encipher_length] at lengths
    exact absurd lengths (by decide)
  refine ⟨forged, ⟨Aead.chacha20Poly1305.decipher sampleCKey.bytes sampleCIv.bytes [0], ?_⟩,
    fun authenticates => ?_⟩
  · rw [decrypt_accepts sizes nonneg, laws.decipher_length]
    rfl
  · have refused := authenticates.altered (forged _ List.mem_cons_self)
      fun other member => by cases member
    exact absurd ((refuses_iff laws sizes _).mp refused).1 (not_lt.mpr nonneg)

end Forgery

end Bacteria.EncDec
