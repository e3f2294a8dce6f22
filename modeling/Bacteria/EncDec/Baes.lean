/-
**The `baes` object: symmetric encryption as Lua scripts use it.**

src/luasubmodules/bencdec.lua.

* `Key`, `baesNew` — a key of 32 bytes, made of what was given; `Baes` — the object.
* `Baes.encrypt`, `Baes.decrypt`, `Baes.setAESDataEnc`, `Baes.getAESDataEnc`, `Baes.getAESDataDec`.
* `baesRoundTrip` — one object encrypts, another decrypts its raw data; `baesRoundTrip_iff` says when
  the message comes back.
* `textTransport` — the ciphertext travels as hexadecimal text (`sentText`, `receivedText`), as the
  `pisk` and `pizd` handlers send and read it; `textTransport_iff` says when the message comes back.
-/

import Bacteria.EncDec.Aes
import Bacteria.EncDec.Hex

namespace Bacteria.EncDec

open Clib

/-- What the field of a result holds: the empty table it starts with, nil, or a userdata. -/
inductive Held where
  | table
  | nil
  | aesData (data : AESData)

/-- The field after the call of a binding. -/
def Held.ofReturned : Returned → Held
  | .nothing => .nil
  | .nil => .nil
  | .aesData data => .aesData data

/-- `lua_touserdata`. -/
def Held.userdata : Held → Option AESData
  | .aesData data => some data
  | _ => none

/-- A key of the size the ciphers take. -/
abbrev Key := { key : Bytes // key.length = 32 }

/-- The `while` loop of `baes:new` on `obj.key`, for so many turns at most. A short `obj.key` is
replaced by the given key and one `0`. -/
def keyLoop (key : Bytes) : Nat → Bytes → Option Key
  | 0, current => if size : current.length = 32 then some ⟨current, size⟩ else none
  | fuel + 1, current =>
    if size : current.length = 32 then some ⟨current, size⟩
    else if current.length > 32 then keyLoop key fuel (current.take 32)
    else keyLoop key fuel (key ++ [48])

/-- The object. -/
structure Baes where
  key : Key
  iv : Bytes
  aesdataEnc : Held
  aesdataDec : Held

/-- `baes:new` for a key and an initialisation vector. -/
def baesNew (fuel : Nat) (key iv : Bytes) : Option Baes :=
  (keyLoop key fuel key).map fun key => ⟨key, iv, .table, .table⟩

/-- `obj:encrypt`. `obj:checkSizes` raises nothing: `not` binds stronger than `==`, and a boolean is
no number. -/
def Baes.encrypt (evp : Evp) (obj : Baes) (msg : Bytes) (t : Option Nat) : Baes :=
  { obj with
    aesdataEnc := .ofReturned (luaAESenc evp obj.key.val obj.iv msg (t.getD tChacha20)) }

/-- `obj:decrypt`. -/
def Baes.decrypt (evp : Evp) (obj : Baes) (aesdata : Held) (t : Option Nat) : Baes :=
  { obj with
    aesdataDec :=
      .ofReturned (luaAESdec evp obj.key.val obj.iv aesdata.userdata (t.getD tChacha20)) }

/-- `obj:setAESData_enc`. -/
def Baes.setAESDataEnc (obj : Baes) (msg : Option Bytes) (size : Option Nat) : Baes :=
  let msg := msg.getD []
  { obj with aesdataEnc := .aesData (createAESData msg (size.getD msg.length)) }

/-- `obj:getAESData_enc`: the text and the length. -/
def Baes.getAESDataEnc (obj : Baes) : Pushed × Option Nat :=
  (getAESData obj.aesdataEnc.userdata, getAESDataLen obj.aesdataEnc.userdata)

/-- `obj:getAESData_dec`. -/
def Baes.getAESDataDec (obj : Baes) : Pushed × Option Nat :=
  (getAESData obj.aesdataDec.userdata, getAESDataLen obj.aesdataDec.userdata)

/-- What `getAESData_dec` gives after one object encrypted `msg` and another one of the same key and
initialisation vector decrypted the first one's `getAESData_rawEnc`; `none` while a `baes:new` runs. -/
def baesRoundTrip (evp : Evp) (fuel : Nat) (key iv msg : Bytes) (t : Nat) : Option Pushed :=
  (baesNew fuel key iv).bind fun sender => (baesNew fuel key iv).map fun receiver =>
    (receiver.decrypt evp (sender.encrypt evp msg (some t)).aesdataEnc (some t)).getAESDataDec.1

/-- `string.tohex` of what was pushed; it raises for nil. -/
def tohexOf : Pushed → Option Bytes
  | .string aesdata => some (tohex aesdata)
  | _ => none

/-- The text a sender makes of a message, as in `opcodes["pisk"]`. -/
def sentText (evp : Evp) (sender : Baes) (msg : Bytes) (t : Nat) : Option Bytes :=
  tohexOf (sender.encrypt evp msg (some t)).getAESDataEnc.1

/-- What a receiver reads out of a text, as in `opcodes["pizd"]`; `none` when `string.fromhex`
raises. -/
def receivedText (evp : Evp) (wide : Int) (receiver : Baes) (text : Bytes) (t : Nat) :
    Option Pushed :=
  (fromhex wide text).map fun msg =>
    let receiver := receiver.setAESDataEnc (some msg) none
    (receiver.decrypt evp receiver.aesdataEnc (some t)).getAESDataDec.1

/-- The way of a message as text between two objects of the same key and initialisation vector. -/
def textTransport (evp : Evp) (wide : Int) (fuel : Nat) (key iv msg : Bytes) (t : Nat) :
    Option Pushed :=
  (baesNew fuel key iv).bind fun sender => (baesNew fuel key iv).bind fun receiver =>
    (sentText evp sender msg t).bind fun text => receivedText evp wide receiver text t

section Objects

variable {evp : Evp} {cipher : Cipher} {key iv msg : Bytes}

/-! ### Building the object -/

/-- A key of 32 bytes is kept, whatever the fuel. -/
theorem keyLoop_of_size (fuel : Nat) (keySize : key.length = 32) :
    keyLoop key fuel key = some ⟨key, keySize⟩ := by
  cases fuel with
  | zero => rw [keyLoop, dif_pos keySize]
  | succ fuel => rw [keyLoop, dif_pos keySize]

theorem baesNew_of_size (fuel : Nat) (iv : Bytes) (keySize : key.length = 32) :
    baesNew fuel key iv = some ⟨⟨key, keySize⟩, iv, .table, .table⟩ := by
  rw [baesNew, keyLoop_of_size fuel keySize, Option.map_some]

@[simp] theorem ofReturned_userdata (returned : Returned) :
    (Held.ofReturned returned).userdata = returned.userdata := by
  cases returned <;> rfl

/-! ### Sizes -/

theorem strlen_eq_iff {data : Bytes} {size : Nat} (length : data.length = size) :
    (cstr data).strlen = size ↔ (0 : Byte) ∉ data := by
  rw [← cstr_eq_iff, CString.strlen]
  constructor
  · intro same
    exact (List.takeWhile_prefix _).eq_of_length (same.trans length.symm)
  · intro whole
    rw [whole, length]

/-- The part of a message that is encrypted. -/
def encryptedPart (msg : Bytes) : Bytes := (cstr msg).bytes.take (encryptedSize msg)

theorem encryptedPart_length (msg : Bytes) : (encryptedPart msg).length = encryptedSize msg := by
  rw [encryptedPart, List.length_take, Nat.min_eq_left (encryptedSize_le msg)]

theorem encryptedPart_clean (msg : Bytes) : (0 : Byte) ∉ encryptedPart msg := fun member =>
  (cstr msg).noNul (List.mem_of_mem_take member)

/-- **When a message is encrypted as a whole.** -/
theorem encrypts_whole_iff (keySize : key.length = 32) (ivSize : iv.length = 16)
    (ivClean : (0 : Byte) ∉ iv) (nonempty : msg ≠ []) :
    Encrypts cipher key iv msg ∧ encryptedPart msg = msg ↔
      (0 : Byte) ∉ key ∧ (0 : Byte) ∉ msg ∧ paddedLength cipher msg.length < 2 ^ 31 := by
  constructor
  · rintro ⟨encrypts, whole⟩
    have size := encryptedPart_length msg
    rw [whole] at size
    refine ⟨(strlen_eq_iff keySize).mp encrypts.keySize, ?_, ?_⟩
    · rw [← whole]
      exact encryptedPart_clean msg
    · rw [size]
      exact encrypts.short
  · rintro ⟨keyClean, clean, short⟩
    have longer := le_paddedLength cipher msg.length
    have positive := List.length_pos_iff.mpr nonempty
    have size : encryptedSize msg = msg.length := by
      rw [encryptedSize, CString.strlen, (cstr_eq_iff msg).mpr clean, toInt_of_lt (by omega),
        Int.toNat_natCast]
    refine ⟨⟨(strlen_eq_iff keySize).mpr keyClean, (strlen_eq_iff ivSize).mpr ivClean, ?_, ?_⟩, ?_⟩
    · omega
    · rw [size]
      exact short
    · rw [encryptedPart, (cstr_eq_iff msg).mpr clean, size, List.take_length]

/-! ### Decryption of what was encrypted -/

section Decrypted

variable {input : AESData}

theorem ciphertextOf_eq (cipher : Cipher) (key iv msg : Bytes) :
    ciphertextOf evp cipher key iv msg =
      evp.encrypt cipher (cstr key).bytes (cstr iv).bytes (encryptedPart msg) := rfl

/-- The whole ciphertext decrypts to the encrypted part of the message. -/
theorem decrypted_iff (lawful : evp.Lawful) (encrypts : Encrypts cipher key iv msg)
    (size : input.size = (ciphertextOf evp cipher key iv msg).length)
    (content : input.data.take input.size = ciphertextOf evp cipher key iv msg) {text : Bytes} :
    getAESData (luaAESdec evp key iv (some input) (typeOf cipher)).userdata = .string text ↔
      encryptedPart msg = text := by
  have short : input.size < 2 ^ 31 := by
    rw [size, ciphertextOf_length lawful]
    exact encrypts.short
  have filled : encryptedPart msg ≠ [] := by
    rw [← List.length_pos_iff, encryptedPart_length]
    exact encrypts.positive
  have whole := (cstr_eq_iff (encryptedPart msg)).mpr (encryptedPart_clean msg)
  rw [getAESData_luaAESdec lawful encrypts.keySize encrypts.ivSize (by rw [content, size]) short,
    content, ciphertextOf_eq, lawful.decrypt_encrypt]
  constructor
  · rintro ⟨plain, same, _, rfl⟩
    obtain rfl := Option.some.inj same
    exact whole.symm
  · rintro rfl
    exact ⟨encryptedPart msg, rfl, filled, whole⟩

/-- **A ciphertext cut at a NUL is lost**: what remains is shorter than any ciphertext of a text that
starts with the message. -/
theorem cut_ciphertext_lost (lawful : evp.Lawful) (encrypts : Encrypts cipher key iv msg)
    (nul : (0 : Byte) ∈ ciphertextOf evp cipher key iv msg)
    (size : input.size = (cstr (ciphertextOf evp cipher key iv msg)).bytes.length)
    (content : input.data.take input.size = (cstr (ciphertextOf evp cipher key iv msg)).bytes) :
    getAESData (luaAESdec evp key iv (some input) (typeOf cipher)).userdata ≠ .string msg := by
  intro read
  have length := ciphertextOf_length lawful cipher key iv msg
  have shorter := cstr_length_lt nul
  have short := encrypts.short
  rw [getAESData_luaAESdec lawful encrypts.keySize encrypts.ivSize (by rw [content, size])
    (by omega), content] at read
  obtain ⟨plain, decrypts, _, front⟩ := read
  have whole := lawful.decrypt_length _ _ _ _ _ decrypts
  have longer : encryptedSize msg ≤ plain.length := by
    have first := encryptedSize_le msg
    have second := cstr_length_le msg
    have third := cstr_length_le plain
    rw [front] at third
    omega
  have padded := paddedLength_mono cipher longer
  omega

end Decrypted

/-! ### The round trips -/

theorem getAESDataEnc_encrypt (obj : Baes) (msg : Bytes) (t : Nat) :
    (obj.encrypt evp msg (some t)).getAESDataEnc.1 =
      getAESData (luaAESenc evp obj.key.val obj.iv msg t).userdata := by
  rw [Baes.getAESDataEnc, Baes.encrypt, ofReturned_userdata, Option.getD_some]

theorem getAESDataDec_decrypt (obj : Baes) (aesdata : Held) (t : Nat) :
    (obj.decrypt evp aesdata (some t)).getAESDataDec.1 =
      getAESData (luaAESdec evp obj.key.val obj.iv aesdata.userdata t).userdata := by
  rw [Baes.getAESDataDec, Baes.decrypt, ofReturned_userdata, Option.getD_some]

theorem baesRoundTrip_eq (fuel : Nat) (keySize : key.length = 32) (t : Nat) :
    baesRoundTrip evp fuel key iv msg t =
      some (getAESData (luaAESdec evp key iv (luaAESenc evp key iv msg t).userdata t).userdata) := by
  rw [baesRoundTrip, baesNew_of_size fuel iv keySize, Option.bind_some, Option.map_some,
    getAESDataDec_decrypt, Baes.encrypt, ofReturned_userdata, Option.getD_some]

/-- What the receiver makes of the text of some data. -/
theorem receivedText_tohex (wide : Int) (receiver : Baes) (data : Bytes) (t : Nat) :
    receivedText evp wide receiver (tohex data) t =
      some (getAESData (luaAESdec evp receiver.key.val receiver.iv
        (some (createAESData data data.length)) t).userdata) := by
  have sameKey : (receiver.setAESDataEnc (some data) none).key = receiver.key := rfl
  have sameIv : (receiver.setAESDataEnc (some data) none).iv = receiver.iv := rfl
  have stored : (receiver.setAESDataEnc (some data) none).aesdataEnc.userdata =
      some (createAESData data data.length) := rfl
  rw [receivedText, fromhex_tohex, Option.map_some, getAESDataDec_decrypt, sameKey, sameIv, stored]

theorem textTransport_of_string (wide : Int) (fuel : Nat) (keySize : key.length = 32) {t : Nat}
    {aesdata : Bytes}
    (sent : getAESData (luaAESenc evp key iv msg t).userdata = .string aesdata) :
    textTransport evp wide fuel key iv msg t = some (getAESData
      (luaAESdec evp key iv (some (createAESData aesdata aesdata.length)) t).userdata) := by
  rw [textTransport, baesNew_of_size fuel iv keySize, Option.bind_some, Option.bind_some, sentText,
    getAESDataEnc_encrypt, sent, tohexOf, Option.bind_some, receivedText_tohex]

theorem textTransport_of_nothing (wide : Int) (fuel : Nat) (keySize : key.length = 32) {t : Nat}
    (sent : getAESData (luaAESenc evp key iv msg t).userdata = .nothing) :
    textTransport evp wide fuel key iv msg t = none := by
  rw [textTransport, baesNew_of_size fuel iv keySize, Option.bind_some, Option.bind_some, sentText,
    getAESDataEnc_encrypt, sent, tohexOf, Option.bind_none]
  exact fun aesdata text => Pushed.noConfusion text

/-- **When the message comes back.** For a key of 32 bytes and an initialisation vector of 16, the
message comes back exactly if neither key nor message has a NUL and the output's length is an `int`. -/
theorem baesRoundTrip_iff (lawful : evp.Lawful) (fuel : Nat) (cipher : Cipher) {key iv msg : Bytes}
    (keySize : key.length = 32) (ivSize : iv.length = 16) (ivClean : (0 : Byte) ∉ iv)
    (nonempty : msg ≠ []) :
    baesRoundTrip evp fuel key iv msg (typeOf cipher) = some (.string msg) ↔
      (0 : Byte) ∉ key ∧ (0 : Byte) ∉ msg ∧ paddedLength cipher msg.length < 2 ^ 31 := by
  rw [baesRoundTrip_eq fuel keySize, Option.some_inj,
    ← encrypts_whole_iff keySize ivSize ivClean nonempty]
  rcases luaAESenc_cases lawful cipher key iv msg with
    ⟨encrypts, data, returned, size, content, _⟩ | ⟨fails, returned⟩
  · rw [returned, Returned.userdata, decrypted_iff lawful encrypts size content]
    exact ⟨fun whole => ⟨encrypts, whole⟩, fun both => both.2⟩
  · rw [returned]
    constructor
    · intro read
      cases read
    · intro both
      exact absurd both.1 fails

/-- Key and message without NUL bytes. -/
theorem baesRoundTrip_iff_sample :
    baesRoundTrip Evp.chacha20 0 (ascii "01234567890123456789012345678901")
      (ascii "1234567890123451") (ascii "TestMsg") (typeOf .chacha20Poly1305) =
        some (.string (ascii "TestMsg")) :=
  (baesRoundTrip_iff chacha20_lawful 0 .chacha20Poly1305 (by decide) (by decide) (by decide)
    (by decide)).mpr ⟨by decide, by decide, by decide⟩

/-- A key with a NUL byte, as one shared secret in eight has: nothing is encrypted. -/
theorem nulKey_encrypts_nothing :
    Evp.chacha20.Lawful ∧ (ascii "shared secret: 0" ++ 0 :: ascii "bytes after NUL").length = 32 ∧
      (ascii "1234567890123451").length = 16 ∧ (0 : Byte) ∉ ascii "1234567890123451" ∧
      baesRoundTrip Evp.chacha20 0 (ascii "shared secret: 0" ++ 0 :: ascii "bytes after NUL")
        (ascii "1234567890123451") (ascii "TestMsg") (typeOf .chacha20Poly1305) = some .nothing :=
  ⟨chacha20_lawful, by decide, by decide, by decide, by decide +kernel⟩

/-- Neither does a message with a NUL byte come back. -/
example : baesRoundTrip Evp.chacha20 0 (ascii "01234567890123456789012345678901")
    (ascii "1234567890123451") (ascii "Test" ++ 0 :: ascii "Msg") tChacha20 =
      some (.string (ascii "Test")) := by decide +kernel

/-- **When the message survives its text transport.** Without NUL bytes in key, initialisation vector
and message, it does exactly if the ciphertext has none either and its length is an `int`. -/
theorem textTransport_iff (lawful : evp.Lawful) (wide : Int) (fuel : Nat) (cipher : Cipher)
    {key iv msg : Bytes} (keySize : key.length = 32) (keyClean : (0 : Byte) ∉ key)
    (ivSize : iv.length = 16) (ivClean : (0 : Byte) ∉ iv) (long : 2 ≤ msg.length)
    (clean : (0 : Byte) ∉ msg) :
    textTransport evp wide fuel key iv msg (typeOf cipher) = some (.string msg) ↔
      (0 : Byte) ∉ evp.encrypt cipher key iv msg ∧ paddedLength cipher msg.length < 2 ^ 31 := by
  have nonempty : msg ≠ [] := List.length_pos_iff.mp (by omega)
  have whole_iff := @encrypts_whole_iff cipher key iv msg keySize ivSize ivClean nonempty
  have ciphertext : encryptedPart msg = msg →
      ciphertextOf evp cipher key iv msg = evp.encrypt cipher key iv msg := by
    intro whole
    rw [ciphertextOf_eq, whole, (cstr_eq_iff key).mpr keyClean, (cstr_eq_iff iv).mpr ivClean]
  rcases luaAESenc_cases lawful cipher key iv msg with
    ⟨encrypts, data, returned, size, content, text⟩ | ⟨fails, returned⟩
  · have filled : data.size ≠ 0 := by
      have longer := le_paddedLength cipher (encryptedSize msg)
      have positive := encrypts.positive
      rw [size, ciphertextOf_length lawful]
      omega
    have sent : getAESData (luaAESenc evp key iv msg (typeOf cipher)).userdata =
        .string (cstr (ciphertextOf evp cipher key iv msg)).bytes := by
      rw [returned, Returned.userdata]
      simp only [getAESData, if_neg filled, text]
    have taken := createAESData_take (cstr (ciphertextOf evp cipher key iv msg)).noNul
    rw [textTransport_of_string wide fuel keySize sent, Option.some_inj]
    by_cases nul : (0 : Byte) ∈ ciphertextOf evp cipher key iv msg
    · constructor
      · intro read
        exact absurd read (cut_ciphertext_lost lawful encrypts nul rfl taken)
      · rintro ⟨noNul, short⟩
        have whole := (whole_iff.mpr ⟨keyClean, clean, short⟩).2
        rw [ciphertext whole] at nul
        exact absurd nul noNul
    · rw [(cstr_eq_iff _).mpr nul] at taken ⊢
      rw [decrypted_iff lawful encrypts rfl taken]
      constructor
      · intro whole
        rw [← ciphertext whole]
        exact ⟨nul, (whole_iff.mp ⟨encrypts, whole⟩).2.2⟩
      · rintro ⟨_, short⟩
        exact (whole_iff.mpr ⟨keyClean, clean, short⟩).2
  · rw [textTransport_of_nothing wide fuel keySize (by rw [returned]; rfl)]
    constructor
    · intro read
      cases read
    · rintro ⟨_, short⟩
      exact absurd (whole_iff.mpr ⟨keyClean, clean, short⟩).1 fails

/-- A message whose ciphertext has no NUL. -/
theorem textTransport_iff_sample :
    textTransport Evp.chacha20 0 0 (ascii "00000000000000000000000000000000")
      (ascii "1234567890123451") (ascii "absolute") (typeOf .chacha20Poly1305) =
        some (.string (ascii "absolute")) :=
  (textTransport_iff chacha20_lawful 0 0 .chacha20Poly1305 (by decide) (by decide) (by decide)
    (by decide) (by decide) (by decide)).mpr ⟨by decide +kernel, by decide⟩

/-- One capital letter more and the third byte of the ciphertext is NUL: two letters arrive. -/
theorem nulCiphertext_cut :
    Evp.chacha20.Lawful ∧ (ascii "00000000000000000000000000000000").length = 32 ∧
      (0 : Byte) ∉ ascii "00000000000000000000000000000000" ∧
      (ascii "1234567890123451").length = 16 ∧ (0 : Byte) ∉ ascii "1234567890123451" ∧
      2 ≤ (ascii "abSolute").length ∧ (0 : Byte) ∉ ascii "abSolute" ∧
      textTransport Evp.chacha20 0 0 (ascii "00000000000000000000000000000000")
        (ascii "1234567890123451") (ascii "abSolute") (typeOf .chacha20Poly1305) =
          some (.string (ascii "ab")) :=
  ⟨chacha20_lawful, by decide, by decide, by decide, by decide, by decide, by decide,
    by decide +kernel⟩

end Objects

end Bacteria.EncDec
