/-
**Base64 for Lua: `lua_toBase64` and `lua_decBase64`.**

libbacteria/encdec/verify/base64.c and libbacteria/lua/libnet.c.

* `base64Encode`, `luaToBase64` — the encoder: the text stands in a memory buffer that it fills up.
* `calcDecodeLength`, `base64Decode`, `luaDecBase64` — the decoder, which looks for the padding at the
  end of the text.
* `calcDecodeLength_encode`, `luaDecBase64_encode` — of an encoded text, the right length and the data;
  `luaDecBase64_nil` — of the empty text, bytes in front of it.
* `RoundTrips` — what the pair is for; `not_roundTrips` — the encoder reads on behind its text.
* `returned_of_zeroBehind` — the data comes back where a NUL happens to stand there.
-/

import Bacteria.EncDec.Aes
import Bacteria.Lib.Base64

namespace Bacteria.EncDec

open Clib

/-- `Base64Encode`: the data of the memory buffer, `none` for a null pointer. The length is an `int` to
`BIO_write`; without any input the buffer has no data. -/
def base64Encode (buffer : Bytes) (length : Nat) : Option Bytes :=
  let written := buffer.take (toInt length).toNat
  if written = [] then none else some (Base64.encode written)

/-- How `lua_toBase64` ends: it runs out of the memory behind the text, or it pushes a string, `none`
for nil, after it read so many bytes behind the text. -/
inductive Encoded where
  | faulted
  | pushed (value : Option Bytes) (behind : Nat)
deriving DecidableEq

/-- `lua_pushstring` of the buffer, which has `heap` behind it. -/
def pushEncoded (heap : Bytes) : Option Bytes → Encoded
  | none => .pushed none 0
  | some base64str =>
    match cut 0 heap with
    | none => .faulted
    | some (more, _) => .pushed (some (base64str ++ more)) (more.length + 1)

/-- `lua_toBase64`; `heap` is the memory behind the encoded text. -/
def luaToBase64 (heap s : Bytes) : Encoded :=
  pushEncoded heap (base64Encode (cstr s).bytes (cstr s).strlen)

/-- `b64input[len - back]`, `none` in front of the text. -/
def charBack (b64input : CString) (back : Nat) : Option Byte :=
  if back ≤ b64input.strlen then b64input.bytes[b64input.strlen - back]? else none

/-- `(len * 3) / 4 - padding`, of the type `size_t`. -/
def decodedSize (len padding : Nat) : Nat := (len * 3 % 2 ^ 64 / 4 + 2 ^ 64 - padding) % 2 ^ 64

/-- `calcDecodeLength`, `none` when it reads in front of its text. -/
def calcDecodeLength (b64input : CString) : Option Nat :=
  match charBack b64input 1 with
  | none => none
  | some last =>
    if last = Base64.pad then
      match charBack b64input 2 with
      | none => none
      | some other => some (decodedSize b64input.strlen (if other = Base64.pad then 2 else 1))
    else some (decodedSize b64input.strlen 0)

/-- How `Base64Decode` ends: with a read or write outside its memory, in the assertion, or with the bytes
in its buffer. -/
inductive Decoded where
  | undefined
  | asserted
  | returned (text : Bytes)
deriving DecidableEq

def base64Decode (bio : Base64Bio) (b64message : CString) : Decoded :=
  match calcDecodeLength b64message with
  | none => .undefined
  | some size =>
    let decodeLen := toInt size
    if decodeLen < 0 ∨ decodeLen + 1 = 2 ^ 31 then .undefined
    else
      let output := (bio.read b64message.bytes).take (toInt b64message.strlen).toNat
      let buffer := ((Block.malloc (decodeLen.toNat + 1)).write decodeLen.toNat [0]).write 0 output
      if ¬ buffer.InBounds then .undefined
      else if output.length ≠ decodeLen.toNat then .asserted
      else .returned (buffer.take output.length)

/-- `lua_decBase64`. -/
def luaDecBase64 (bio : Base64Bio) (text : Bytes) : Decoded := base64Decode bio (cstr text)

/-- **What the pair is for**: a string comes back, and nothing behind the encoded text is read. -/
def RoundTrips (bio : Base64Bio) (heap s : Bytes) : Prop :=
  ∃ text, luaToBase64 heap s = .pushed (some text) 0 ∧ luaDecBase64 bio text = .returned s

section Decoding

variable {bio : Base64Bio} {s : Bytes}

/-- The C string of an encoded text is the text. -/
theorem cstr_encode (s : Bytes) : (cstr (Base64.encode s)).bytes = Base64.encode s :=
  (cstr_eq_iff _).mpr (Base64.zero_notMem_encode s)

theorem strlen_encode (s : Bytes) : (cstr (Base64.encode s)).strlen = 4 * ((s.length + 2) / 3) := by
  rw [CString.strlen, cstr_encode, Base64.encode_length]

/-- The last two characters of a text. -/
theorem charBack_of_ends {text : CString} {front : Bytes} {x y : Byte}
    (ends : text.bytes = front ++ [x, y]) : charBack text 1 = some y ∧ charBack text 2 = some x := by
  have length : text.strlen = front.length + 2 := by
    rw [CString.strlen, ends, List.length_append]
    rfl
  constructor
  · rw [charBack, if_pos (by omega), length, ends, List.getElem?_append_right (by omega)]
    rw [show front.length + 2 - 1 - front.length = 1 by omega]
    rfl
  · rw [charBack, if_pos (by omega), length, ends, List.getElem?_append_right (by omega)]
    rw [show front.length + 2 - 2 - front.length = 0 by omega]
    rfl

theorem decodedSize_of {len padding size : Nat} (exact : len * 3 / 4 = size + padding)
    (small : len < 2 ^ 31) : decodedSize len padding = size := by
  have product : len * 3 % 2 ^ 64 = len * 3 := Nat.mod_eq_of_lt (by omega)
  rw [decodedSize, product, exact]
  omega

/-- **The decoded length of an encoded text**, for every length modulo three. -/
theorem calcDecodeLength_encode (nonempty : s ≠ []) (small : 4 * ((s.length + 2) / 3) < 2 ^ 31) :
    calcDecodeLength (cstr (Base64.encode s)) = some s.length := by
  obtain ⟨front, x, y, shape, second, first⟩ := Base64.encode_ends nonempty
  obtain ⟨last, other⟩ := charBack_of_ends ((cstr_encode s).trans shape)
  simp only [calcDecodeLength, last, other, strlen_encode]
  by_cases padded : y = Base64.pad
  · have remainder := second.mp padded
    rw [if_pos padded]
    by_cases twice : x = Base64.pad
    · have one := first.mp twice
      have exact : 4 * ((s.length + 2) / 3) * 3 / 4 = s.length + 2 := by omega
      rw [if_pos twice, decodedSize_of exact small]
    · have notOne : s.length % 3 ≠ 1 := fun one => twice (first.mpr one)
      have exact : 4 * ((s.length + 2) / 3) * 3 / 4 = s.length + 1 := by omega
      rw [if_neg twice, decodedSize_of exact small]
  · have whole : s.length % 3 = 0 := not_not.mp fun remainder => padded (second.mpr remainder)
    have exact : 4 * ((s.length + 2) / 3) * 3 / 4 = s.length + 0 := by omega
    rw [if_neg padded, decodedSize_of exact small]

/-- **The decoder inverts the encoding**: the assertion does not fire, and nothing outside is read or
written. -/
theorem luaDecBase64_encode (lawful : bio.Lawful) (nonempty : s ≠ [])
    (small : 4 * ((s.length + 2) / 3) < 2 ^ 31) :
    luaDecBase64 bio (Base64.encode s) = .returned s := by
  have decodeLen : toInt s.length = s.length := toInt_of_lt (by omega)
  have strlen : toInt (cstr (Base64.encode s)).strlen = (4 * ((s.length + 2) / 3) : Nat) := by
    rw [strlen_encode, toInt_of_lt small]
  have output : (bio.read (cstr (Base64.encode s)).bytes).take
      (toInt (cstr (Base64.encode s)).strlen).toNat = s := by
    rw [cstr_encode, lawful.read_of_decode _ _ (Base64.decode_encode s), strlen, Int.toNat_natCast]
    exact List.take_of_length_le (by omega)
  have inside : (((Block.malloc (s.length + 1)).write s.length [0]).write 0 s).InBounds := by
    rw [Block.inBounds_write, Block.inBounds_write]
    refine ⟨⟨Block.inBounds_malloc _, le_refl _⟩, ?_⟩
    rw [Nat.zero_add]
    exact Nat.le_succ _
  simp only [luaDecBase64, base64Decode, calcDecodeLength_encode nonempty small, output, decodeLen,
    Int.toNat_natCast]
  rw [if_neg (by omega), if_neg (not_not.mpr inside), if_neg (not_not.mpr rfl),
    Block.take_of_holds (Block.holds_write _ 0 s)]

/-- **The empty text** has no last character. -/
theorem luaDecBase64_nil : luaDecBase64 bio [] = .undefined := rfl

end Decoding

section Encoding

variable {bio : Base64Bio} {heap s : Bytes}

/-- A string without NUL that is not too long reaches the encoder as it is. -/
theorem base64Encode_of_clean (nonempty : s ≠ []) (clean : (0 : Byte) ∉ s)
    (small : s.length < 2 ^ 31) :
    base64Encode (cstr s).bytes (cstr s).strlen = some (Base64.encode s) := by
  have whole := (cstr_eq_iff s).mpr clean
  have length : (toInt (cstr s).strlen).toNat = s.length := by
    rw [CString.strlen, whole, toInt_of_lt small, Int.toNat_natCast]
  rw [base64Encode, length, whole, List.take_length, if_neg nonempty]

/-- **No encoded text is read without a byte behind it.** -/
theorem behind_pos {text : Bytes} {behind : Nat}
    (pushed : luaToBase64 heap s = .pushed (some text) behind) : 0 < behind := by
  rw [luaToBase64] at pushed
  cases encoded : base64Encode (cstr s).bytes (cstr s).strlen with
  | none =>
    rw [encoded, pushEncoded] at pushed
    cases pushed
  | some base64str =>
    rw [encoded] at pushed
    cases found : cut 0 heap with
    | none =>
      simp only [pushEncoded, found] at pushed
      cases pushed
    | some parts =>
      simp only [pushEncoded, found] at pushed
      obtain ⟨_, rfl⟩ := Encoded.pushed.inj pushed
      exact Nat.succ_pos _

/-- **The pair returns no string as it should.** -/
theorem not_roundTrips (bio : Base64Bio) (heap s : Bytes) : ¬ RoundTrips bio heap s := by
  rintro ⟨text, pushed, _⟩
  exact Nat.lt_irrefl 0 (behind_pos pushed)

/-- **The data comes back** where a NUL happens to stand behind the encoded text. -/
theorem returned_of_zeroBehind (lawful : bio.Lawful) (nonempty : s ≠ []) (clean : (0 : Byte) ∉ s)
    (small : 4 * ((s.length + 2) / 3) < 2 ^ 31) (rest : Bytes) :
    luaToBase64 (0 :: rest) s = .pushed (some (Base64.encode s)) 1 ∧
      luaDecBase64 bio (Base64.encode s) = .returned s := by
  refine ⟨?_, luaDecBase64_encode lawful nonempty small⟩
  have behind : cut 0 (0 :: rest) = some (([] : Bytes), rest) := if_pos rfl
  rw [luaToBase64, base64Encode_of_clean nonempty clean (by omega)]
  simp only [pushEncoded, behind, List.append_nil]
  rfl

/-- **The empty string and an embedded NUL**: the one is encoded as nil, the other is cut, and of no
string is the text read without the byte behind it. -/
theorem emptyAndNul_lost :
    luaToBase64 [0] [] = .pushed none 0 ∧
      luaToBase64 [0] (ascii "M" ++ 0 :: ascii "n") = .pushed (some (ascii "TQ==")) 1 ∧
      luaDecBase64 .standard (ascii "TQ==") = .returned (ascii "M") ∧
      luaDecBase64 .standard [] = .undefined ∧ ¬ RoundTrips .standard [0] [] ∧
      ¬ RoundTrips .standard [65, 0] (ascii "Man") := by
  refine ⟨by decide, by decide, by decide, luaDecBase64_nil, ?_, ?_⟩
  · rintro ⟨text, pushed, _⟩
    exact Nat.lt_irrefl 0 (behind_pos pushed)
  · rintro ⟨text, pushed, _⟩
    exact Nat.lt_irrefl 0 (behind_pos pushed)

end Encoding

end Bacteria.EncDec
