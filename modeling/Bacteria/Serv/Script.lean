/-
**The opcodes `pisk` and `pizd` of the script.**

`undefined_event` of src/luasubmodules/init.lua answers the opcodes that no entry of `opcodes` has:
`pisk` encrypts the next message on the connection under the key that came with the opcode, `pizd`
decrypts it.

* `recvText`, `readMessage` — `lnet.recv` and the loop around it.
* `pisk`, `pizd`, `undefinedEvent` — the script; `turn` — the turn of `serv_thread` that runs it.
* `pisk_eq`, `pizd_eq` — what the handlers return once they have a message. Both ask for a cipher that
  `AESENCType` does not have, and get ChaCha20-Poly1305.
-/

import Bacteria.EncDec.AesFits
import Bacteria.EncDec.KeyLoop
import Bacteria.Serv.PassThrough
import Bacteria.Serv.ReceiveSites

namespace Bacteria.Serv

open Clib Lua EncDec

/-! ### Receiving in a script -/

/-- `lnet.recv(sock, 1024)`: nil or the received text; `none` when the terminator is stored outside
`buf`, which has 1025 bytes. -/
def recvText (r : RecvResult) : Option (Option Bytes) :=
  match luaRecv r with
  | [.store n, .report _, .process bytes] =>
    if n ≤ 1024 then some (some (cstr bytes).bytes) else none
  | _ => some none

/-- Where the loop on `lnet.recv` gets to: it waits for more, stores outside `buf`, or ends with a
message, nil from a closed connection; `left` is not read. -/
inductive Heard where
  | waits
  | undefined
  | message (msg : Option Bytes) (left : List RecvResult)

/-- The loop on `lnet.recv` of both handlers, over what `recv` returns. -/
def readMessage : List RecvResult → Heard
  | [] => .waits
  | r :: results =>
    match recvText r with
    | none => .undefined
    | some none => .message none results
    | some (some msg) => if msg.length > 1 then .message (some msg) results else readMessage results

/-! ### The handlers of the script -/

/-- How a call of the script goes on: it runs or waits, does something undefined, or ends; `blocks` are
the heap blocks that the bindings wrote to. -/
inductive Progress (ν : Type) where
  | running
  | undefined
  | ended (outcome : Outcome ν) (blocks : List Block) (left : List RecvResult)

/-- What the script is run with: the ciphers, the `int` a number out of range is converted to, and the
value of an error. -/
structure Script (ν : Type) where
  evp : Evp
  wide : Int
  failure : Value ν

/-- The table `AESENCType`. -/
def aesencType (name : Bytes) : Option Nat :=
  if name = ascii "t_ecb" then some tEcb
  else if name = ascii "t_cbc" then some tCbc
  else if name = ascii "t_chacha20" then some tChacha20
  else none

/-- What both replies start with. -/
def answerPrefix : Bytes := ascii "Test opcode: "

section Handlers

variable {ν : Type} (script : Script ν)

/-- What both handlers do before they encrypt or decrypt: the key is made, a message is read, and an
object is made for the key. Nil for a message raises an error. -/
def converse (fuel : Nat) (buf : Bytes) (results : List RecvResult)
    (answer : Baes → Bytes → List RecvResult → Progress ν) : Progress ν :=
  match padKey fuel buf with
  | none => .running
  | some key =>
    match readMessage results with
    | .waits => .running
    | .undefined => .undefined
    | .message msg left =>
      match baesNew fuel key.val handlerIv, msg with
      | none, _ => .running
      | some _, none => .ended (.raised script.failure) [] left
      | some aes, some msg => answer aes msg left

/-- `opcodes["pisk"]`. -/
def pisk (fuel : Nat) (buf : Bytes) (results : List RecvResult) : Progress ν :=
  converse script fuel buf results fun aes msg left =>
    let type := aesencType (ascii "t_aescbc")
    let block := ciphertextBlock script.evp aes.key.val aes.iv msg (type.getD tChacha20)
    match tohexOf (aes.encrypt script.evp msg type).getAESDataEnc.1 with
    | some text => .ended (.returned [.string (answerPrefix ++ text)]) block.toList left
    | none => .ended (.raised script.failure) block.toList left

/-- `opcodes["pizd"]`. -/
def pizd (fuel : Nat) (buf : Bytes) (results : List RecvResult) : Progress ν :=
  converse script fuel buf results fun aes msg left =>
    match fromhex script.wide msg with
    | none => .ended (.raised script.failure) [] left
    | some data =>
      let type := aesencType (ascii "t_aescbc")
      let aes := aes.setAESDataEnc (some data) none
      let block := aes.aesdataEnc.userdata.bind fun input =>
        plaintextBlock script.evp aes.key.val aes.iv input (type.getD tChacha20)
      match (aes.decrypt script.evp aes.aesdataEnc type).getAESDataDec.1 with
      | .string aesdata => .ended (.returned [.string (answerPrefix ++ aesdata)]) block.toList left
      | .nothing => .ended (.returned [.string (ascii "NIL!")]) block.toList left
      | .undefined => .undefined

/-- `undefined_event`. -/
def undefinedEvent (fuel : Nat) (buf opcode : Bytes) (results : List RecvResult) : Progress ν :=
  let ropcode := opcode.take 4
  if ropcode = ascii "pisk" then pisk script fuel buf results
  else if ropcode = ascii "pizd" then pizd script fuel buf results
  else .ended (.returned [.nil]) [] results

/-- The call of `undefined_event` with the arguments `notFound` pushes. -/
def callScript (fuel : Nat) (arguments : List (Value ν)) (results : List RecvResult) : Progress ν :=
  match arguments with
  | [_, _, _, .string buf, .string opcode] => undefinedEvent script fuel buf opcode results
  | _ => .ended (.raised script.failure) [] results

end Handlers

/-! ### A turn of the server -/

/-- A TCP message with an opcode that no entry of `opcodes` has, on a descriptor on which `recv` then
returns `results`. -/
structure Request (ν : Type) where
  fd : Nat
  data : Bytes
  spill : Bytes
  globals : Bytes → Value ν
  results : List RecvResult
  long : 4 ≤ data.length
  short : data.length < sbuf
  inited : (globals (ascii "server_inited")).toBoolean = true
  undefined : selectHandler (data.take 4) = .notFound

namespace Request

variable {ν : Type}

/-- The memory from the start of `buf` on. -/
def buf (r : Request ν) : Bytes :=
  r.data ++ List.replicate (sbuf - r.data.length) 0 ++ r.spill

/-- Its event, when `undefined_event` ends like this. -/
def event (r : Request ν) (outcome : Outcome ν) : Event ν :=
  .readable r.fd ⟨.data r.data (Nat.le_of_lt r.short), r.spill, ⟨r.globals, outcome⟩⟩

end Request

/-- What a turn leaves: the state, the heap blocks that were written, and what is unread. -/
structure Served (ν : Type) where
  state : LoopState ν
  blocks : List Block
  left : List RecvResult

/-- **The turn of `serv_thread`** for a request, `none` as long as the handler runs. -/
def turn {ν : Type} (num : Numerals ν) (script : Script ν) (fuel : Nat) (s : LoopState ν)
    (r : Request ν) : Option (Served ν) :=
  let arguments := luaArguments num .notFound ⟨r.globals, .returned []⟩ (s.call r.fd r.buf) s.stack
  match callScript script fuel arguments r.results with
  | .running => none
  | .undefined => some ⟨{ s with mode := .undefined }, [], r.results⟩
  | .ended outcome blocks left => some ⟨step num s (r.event outcome), blocks, left⟩

/-! ### What is read -/

section Reading

variable {r : RecvResult} {results left : List RecvResult} {msg bytes : Bytes}

/-- **A text of `lnet.recv`** has no NUL and fits `buf`. -/
theorem recvText_some (received : recvText r = some (some msg)) :
    (0 : Byte) ∉ msg ∧ msg.length ≤ 1024 := by
  rw [recvText, luaRecv_eq] at received
  by_cases closed : r.value = 0
  · rw [if_pos closed] at received
    cases received
  rw [if_neg closed] at received
  simp only at received
  split at received
  · rename_i fits
    obtain rfl := Option.some.inj (Option.some.inj received)
    refine ⟨(cstr r.bytes).noNul, le_trans (cstr_length_le r.bytes) ?_⟩
    cases r with
    | failed again =>
      rw [sizeT_failed] at fits
      omega
    | data bytes small =>
      rw [sizeT_data] at fits
      exact fits
  · cases received

/-- What is received at once is read as it is. -/
theorem recvText_data (clean : (0 : Byte) ∉ bytes) (nonempty : bytes ≠ [])
    (fits : bytes.length ≤ 1024) (small : bytes.length < 2 ^ 63) :
    recvText (.data bytes small) = some (some bytes) := by
  have positive := List.length_pos_iff.mpr nonempty
  have opened : ¬ (RecvResult.data bytes small).value = 0 := by
    rw [RecvResult.value]
    omega
  rw [recvText, luaRecv_eq, if_neg opened, sizeT_data]
  simp only [if_pos fits, RecvResult.bytes, (cstr_eq_iff bytes).mpr clean]

/-- **A message that was read**: no NUL, two bytes or more, and it fits `buf`. -/
theorem readMessage_some (heard : readMessage results = .message (some msg) left) :
    (0 : Byte) ∉ msg ∧ 2 ≤ msg.length ∧ msg.length ≤ 1024 := by
  induction results with
  | nil => cases heard
  | cons r results ih =>
    rw [readMessage] at heard
    cases received : recvText r with
    | none =>
      rw [received] at heard
      cases heard
    | some text =>
      rw [received] at heard
      cases text with
      | none => cases heard
      | some text =>
        simp only at heard
        split at heard
        · rename_i long
          obtain rfl : text = msg := by injection heard with same; exact Option.some.inj same
          exact ⟨(recvText_some received).1, long, (recvText_some received).2⟩
        · exact ih heard

/-- **Texts of one byte are skipped.** -/
theorem readMessage_skip {skipped : List RecvResult}
    (shorter : ∀ r ∈ skipped, ∃ text : Bytes, recvText r = some (some text) ∧ text.length ≤ 1)
    (results : List RecvResult) : readMessage (skipped ++ results) = readMessage results := by
  induction skipped with
  | nil => rfl
  | cons r skipped ih =>
    obtain ⟨text, received, short⟩ := shorter r List.mem_cons_self
    rw [List.cons_append, readMessage, received]
    simp only [if_neg (not_lt.mpr short)]
    exact ih fun other member => shorter other (List.mem_cons_of_mem _ member)

end Reading

/-! ### What the handlers make of a message -/

section Answers

variable {ν : Type} (script : Script ν) {fuel : Nat} {buf msg data text : Bytes}
  {results left : List RecvResult}

/-- **Neither handler gets the cipher it asks for**: `AESENCType` has no `t_aescbc`. -/
theorem aesencType_handlers : aesencType (ascii "t_aescbc") = none := by decide

theorem getAESDataEnc_default (evp : Evp) (obj : Baes) (msg : Bytes) :
    (obj.encrypt evp msg none).getAESDataEnc.1 =
      getAESData (luaAESenc evp obj.key.val obj.iv msg (typeOf .chacha20Poly1305)).userdata := by
  rw [Baes.getAESDataEnc, Baes.encrypt, ofReturned_userdata, Option.getD_none, typeOf]

theorem getAESDataDec_default (evp : Evp) (obj : Baes) (aesdata : Held) :
    (obj.decrypt evp aesdata none).getAESDataDec.1 = getAESData
      (luaAESdec evp obj.key.val obj.iv aesdata.userdata (typeOf .chacha20Poly1305)).userdata := by
  rw [Baes.getAESDataDec, Baes.decrypt, ofReturned_userdata, Option.getD_none, typeOf]

/-- From 32 turns on the loop on the key is over. -/
theorem padKey_enough {key : Bytes} (enough : 32 - key.length ≤ fuel) (positive : 0 < fuel) :
    padKey fuel key = some (normalKey key) := by
  induction fuel generalizing key with
  | zero => cases positive
  | succ fuel ih =>
    by_cases full : key.length = 32
    · rw [padKey, dif_pos full, normalKey_of_size full]
    by_cases long : key.length > 32
    · have size := take_size (Nat.le_of_lt long)
      rw [padKey, dif_neg full, if_pos long, normalKey_of_long (Nat.le_of_lt long)]
      cases fuel with
      | zero => rw [padKey, dif_pos size]
      | succ fuel => rw [padKey, dif_pos size]
    · have longer : (key ++ [zeroChar]).length = key.length + 1 := by
        rw [List.length_append, List.length_singleton]
      rw [padKey, dif_neg full, if_neg long, ← normalKey_append (by omega)]
      by_cases last : key.length = 31
      · have size : (key ++ [zeroChar]).length = 32 := by omega
        rw [normalKey_of_size size]
        cases fuel with
        | zero => rw [padKey, dif_pos size]
        | succ fuel => rw [padKey, dif_pos size]
      · exact ih (by omega) (by omega)

theorem normalKey_clean (clean : (0 : Byte) ∉ buf) : (0 : Byte) ∉ (normalKey buf).val := by
  intro member
  rcases List.mem_append.mp (List.mem_of_mem_take member) with inKey | inZeroes
  · exact clean inKey
  · exact absurd (List.eq_of_mem_replicate inZeroes) (by decide)

/-- **Once a message is read**, an object for the normal key answers it. -/
theorem converse_message (enough : 32 ≤ fuel) (heard : readMessage results = .message (some msg) left)
    (answer : Baes → Bytes → List RecvResult → Progress ν) :
    converse script fuel buf results answer =
      answer ⟨normalKey buf, handlerIv, .table, .table⟩ msg left := by
  rw [converse, padKey_enough (by omega) (by omega), heard]
  simp only [baesNew_of_size fuel handlerIv (normalKey buf).property]

/-- **Without one** both handlers raise an error, wait, or store outside `buf`. -/
theorem converse_silent (enough : 32 ≤ fuel)
    (silent : ∀ msg left, readMessage results ≠ .message (some msg) left)
    (answer : Baes → Bytes → List RecvResult → Progress ν) :
    converse script fuel buf results answer = .running ∨
      converse script fuel buf results answer = .undefined ∨
      ∃ left, converse script fuel buf results answer =
        .ended (.raised script.failure) [] left := by
  rw [converse, padKey_enough (by omega) (by omega)]
  cases heard : readMessage results with
  | waits => exact Or.inl rfl
  | undefined => exact Or.inr (Or.inl rfl)
  | message msg left =>
    cases msg with
    | none =>
      simp only [baesNew_of_size fuel handlerIv (normalKey buf).property]
      exact Or.inr (Or.inr ⟨left, rfl⟩)
    | some msg => exact absurd heard (silent msg left)

/-- What is encrypted under the key of a message body. -/
def ciphertext (evp : Evp) (buf msg : Bytes) : Bytes :=
  evp.encrypt .chacha20Poly1305 (normalKey buf).val handlerIv msg

/-- What is decrypted of some data: they are copied as a C string, with zeroes behind. -/
def plaintext (evp : Evp) (buf data : Bytes) : Option Bytes :=
  evp.decrypt .chacha20Poly1305 (normalKey buf).val handlerIv (strncpy (cstr data) data.length)

/-- **`pisk` answers every message** with what `tohex` makes of the ciphertext up to its first NUL, and
stays inside its block. -/
theorem pisk_eq (lawful : script.evp.Lawful) (enough : 32 ≤ fuel) (clean : (0 : Byte) ∉ buf)
    (heard : readMessage results = .message (some msg) left) :
    ∃ block : Block, block.InBounds ∧ pisk script fuel buf results =
      .ended (.returned [.string
        (answerPrefix ++ tohex (cstr (ciphertext script.evp buf msg)).bytes)]) [block] left := by
  obtain ⟨msgClean, long, fits⟩ := readMessage_some heard
  have keyClean := normalKey_clean clean
  have nonempty : msg ≠ [] := List.length_pos_iff.mp (by omega)
  obtain ⟨encrypts, whole⟩ := (@encrypts_whole_iff .chacha20Poly1305 _ handlerIv msg
    (normalKey buf).property (by decide) (by decide) nonempty).mpr
      ⟨keyClean, msgClean, lt_of_le_of_lt fits (by decide)⟩
  have sameText : ciphertextOf script.evp .chacha20Poly1305 (normalKey buf).val handlerIv msg =
      ciphertext script.evp buf msg := by
    have ivWhole : (cstr handlerIv).bytes = handlerIv := by decide
    rw [ciphertextOf_eq, whole, (cstr_eq_iff _).mpr keyClean, ivWhole, ciphertext]
  obtain ⟨data, returned, size, content, read⟩ := luaAESenc_eq lawful encrypts
  have written : ciphertextBlock script.evp (normalKey buf).val handlerIv msg tChacha20 =
      some data.data := ciphertextBlock_of_returned returned
  have filled : data.size ≠ 0 := by
    have longer := le_paddedLength .chacha20Poly1305 (encryptedSize msg)
    have positive := encrypts.positive
    rw [size, ciphertextOf_length lawful]
    omega
  have pushed : getAESData (luaAESenc script.evp (normalKey buf).val handlerIv msg
      (typeOf .chacha20Poly1305)).userdata =
        .string (cstr (ciphertext script.evp buf msg)).bytes := by
    rw [returned, Returned.userdata]
    simp only [getAESData, if_neg filled, read, sameText]
  refine ⟨data.data, (ciphertextBlock_inBounds lawful encrypts written).mpr (Or.inl rfl), ?_⟩
  rw [pisk, converse_message script enough heard]
  simp only [aesencType_handlers, getAESDataEnc_default, Option.getD_none]
  rw [pushed, written]
  rfl

/-- What `fromhex` reads is not longer than the text, and not empty for a text of one pair or more. -/
theorem fromhex_length {wide : Int} (read : fromhex wide text = some data) :
    data.length ≤ text.length ∧ (2 ≤ text.length → data ≠ []) := by
  induction text using List.twoStepInduction generalizing data with
  | nil =>
    obtain rfl := Option.some.inj read
    exact ⟨le_refl _, fun long => absurd long (by decide)⟩
  | singleton a =>
    obtain rfl := Option.some.inj read
    exact ⟨le_refl _, fun long => absurd long (by simp)⟩
  | cons_cons a b rest ih _ =>
    rw [fromhex] at read
    split at read
    · rename_i c tail _ readTail
      obtain rfl := Option.some.inj read
      have shorter := (ih readTail).1
      refine ⟨?_, fun _ => List.cons_ne_nil _ _⟩
      rw [List.length_cons, List.length_cons, List.length_cons]
      omega
    · cases read

theorem strncpy_length (text : CString) (size : Nat) : (strncpy text size).length = size := by
  rw [strncpy, List.length_take, List.length_append, List.length_replicate, CString.strlen]
  omega

/-- The data behind a userdata of `createAESData`. -/
theorem createAESData_content (data : Bytes) (size : Nat) :
    (createAESData data size).data.take size = strncpy (cstr data) size := by
  have written := Block.take_of_holds (Block.holds_write (Block.malloc size) 0
    (strncpy (cstr data) size))
  rwa [strncpy_length] at written

/-- What `AES_any_decrypt` returns and writes, for a plaintext. -/
def outputOfPlain : Option Bytes → Int × Bytes
  | some plain => (plain.length, plain)
  | none => (-1, [])

/-- A plaintext is as long as the data. -/
theorem plaintext_length (lawful : script.evp.Lawful) {plain : Bytes}
    (decrypts : plaintext script.evp buf data = some plain) : plain.length = data.length := by
  have same := lawful.decrypt_length _ _ _ _ _ decrypts
  rw [strncpy_length] at same
  exact same.symm

/-- The call of `AES_any_decrypt` for the data of `pizd`. -/
theorem aesAnyDecrypt_plaintext (lawful : script.evp.Lawful) (clean : (0 : Byte) ∉ buf)
    (fits : data.length ≤ 1024) :
    aesAnyDecrypt script.evp .chacha20Poly1305
        ((createAESData data data.length).data.take data.length) (toInt data.length)
        (cstr (normalKey buf).val) (cstr handlerIv) =
      outputOfPlain (plaintext script.evp buf data) := by
  have keyClean := (cstr_eq_iff _).mpr (normalKey_clean clean)
  have keySize : (cstr (normalKey buf).val).strlen = 32 := by
    rw [CString.strlen, keyClean]
    exact (normalKey buf).property
  have ivSize : (cstr handlerIv).strlen = 16 := by decide
  have ivWhole : (cstr handlerIv).bytes = handlerIv := by decide
  have short : data.length < 2 ^ 31 := lt_of_le_of_lt fits (by decide)
  have whole : (strncpy (cstr data) data.length).take data.length =
      strncpy (cstr data) data.length :=
    List.take_of_length_le (Nat.le_of_eq (strncpy_length (cstr data) data.length))
  rw [aesAnyDecrypt, badSizes_eq_false.mpr ⟨keySize, ivSize⟩, if_neg Bool.false_ne_true,
    toInt_of_lt short, if_neg (by omega), Int.toNat_natCast, createAESData_content, whole, keyClean,
    ivWhole, ← plaintext]
  cases decrypts : plaintext script.evp buf data with
  | none => rfl
  | some plain =>
    have length : toInt plain.length = plain.length :=
      toInt_of_lt (by rw [plaintext_length script lawful decrypts]; exact short)
    simp only [length, outputOfPlain]

/-- **The block of `pizd`**: the terminator goes behind a plaintext that is as long as the data. -/
theorem plaintextBlock_eq (lawful : script.evp.Lawful) (clean : (0 : Byte) ∉ buf)
    (nonempty : data ≠ []) (fits : data.length ≤ 1024) :
    ∃ block, plaintextBlock script.evp (normalKey buf).val handlerIv
        (createAESData data data.length) tChacha20 = some block ∧
      (block.InBounds ↔ plaintext script.evp buf data = none) := by
  have positive := List.length_pos_iff.mpr nonempty
  have nonzero : (createAESData data data.length).size ≠ 0 := Nat.ne_of_gt positive
  have allocated : mallocSize (createAESData data data.length).size = some data.length :=
    mallocSize_of_lt (lt_of_le_of_lt fits (by decide))
  have mode : cipherOf tChacha20 = some .chacha20Poly1305 := cipherOf_typeOf .chacha20Poly1305
  have output : aesAnyDecrypt script.evp .chacha20Poly1305
      ((createAESData data data.length).data.take (createAESData data data.length).size)
      (toInt (createAESData data data.length).size) (cstr (normalKey buf).val) (cstr handlerIv) =
        outputOfPlain (plaintext script.evp buf data) :=
    aesAnyDecrypt_plaintext script lawful clean fits
  refine ⟨writtenBlock data.length (outputOfPlain (plaintext script.evp buf data)), ?_, ?_⟩
  · simp only [plaintextBlock, if_neg nonzero, allocated, mode, output]
  · cases decrypts : plaintext script.evp buf data with
    | none => exact iff_of_true (failedBlock_inBounds _) rfl
    | some plain =>
      have length := plaintext_length script lawful decrypts
      refine iff_of_false (fun inside => ?_) (Option.some_ne_none plain)
      have room := (writtenBlock_inBounds.mp inside).2 (by rw [outputOfPlain]; omega)
      rw [outputOfPlain, Int.toNat_natCast] at room
      omega

/-- **What `pizd` reads back** of its decryption: the plaintext up to its first NUL. -/
theorem getAESData_plaintext (lawful : script.evp.Lawful) (clean : (0 : Byte) ∉ buf)
    (nonempty : data ≠ []) (fits : data.length ≤ 1024) :
    getAESData (luaAESdec script.evp (normalKey buf).val handlerIv
      (some (createAESData data data.length)) (typeOf .chacha20Poly1305)).userdata =
        match plaintext script.evp buf data with
        | none => .nothing
        | some plain => .string (cstr plain).bytes := by
  have positive := List.length_pos_iff.mpr nonempty
  have nonzero : (createAESData data data.length).size ≠ 0 := Nat.ne_of_gt positive
  have allocated : mallocSize (createAESData data data.length).size = some data.length :=
    mallocSize_of_lt (lt_of_le_of_lt fits (by decide))
  have output : aesAnyDecrypt script.evp .chacha20Poly1305
      ((createAESData data data.length).data.take (createAESData data data.length).size)
      (toInt (createAESData data data.length).size) (cstr (normalKey buf).val) (cstr handlerIv) =
        outputOfPlain (plaintext script.evp buf data) :=
    aesAnyDecrypt_plaintext script lawful clean fits
  rw [luaAESdec]
  simp only [if_neg nonzero, allocated, cipherOf_typeOf, output]
  cases decrypts : plaintext script.evp buf data with
  | none => rfl
  | some plain =>
    have length := plaintext_length script lawful decrypts
    exact getAESData_outputOf data.length (by omega)

/-- **`pizd` answers every message**, unless it is no hexadecimal text: an error is raised then. A
plaintext is answered only after the terminator was written behind the block. -/
theorem pizd_eq (lawful : script.evp.Lawful) (enough : 32 ≤ fuel) (clean : (0 : Byte) ∉ buf)
    (heard : readMessage results = .message (some msg) left) :
    (fromhex script.wide msg = none ∧
      pizd script fuel buf results = .ended (.raised script.failure) [] left) ∨
    ∃ data block, fromhex script.wide msg = some data ∧
      ((plaintext script.evp buf data = none ∧ block.InBounds ∧ pizd script fuel buf results =
          .ended (.returned [.string (ascii "NIL!")]) [block] left) ∨
        ∃ plain, plaintext script.evp buf data = some plain ∧ ¬ block.InBounds ∧
          pizd script fuel buf results =
            .ended (.returned [.string (answerPrefix ++ (cstr plain).bytes)]) [block] left) := by
  obtain ⟨_, long, msgFits⟩ := readMessage_some heard
  rw [pizd, converse_message script enough heard]
  cases read : fromhex script.wide msg with
  | none => exact Or.inl ⟨rfl, rfl⟩
  | some data =>
    obtain ⟨shorter, filled⟩ := fromhex_length read
    have nonempty := filled long
    have fits : data.length ≤ 1024 := le_trans shorter msgFits
    obtain ⟨block, written, inside⟩ := plaintextBlock_eq script lawful clean nonempty fits
    have pushed := getAESData_plaintext script lawful clean nonempty fits
    refine Or.inr ⟨data, block, rfl, ?_⟩
    have stored : (⟨normalKey buf, handlerIv, .table, .table⟩ : Baes).setAESDataEnc (some data) none =
        ⟨normalKey buf, handlerIv, .aesData (createAESData data data.length), .table⟩ := rfl
    simp only [aesencType_handlers, stored, getAESDataDec_default, Held.userdata, Option.bind_some,
      Option.getD_none]
    cases decrypts : plaintext script.evp buf data with
    | none =>
      refine Or.inl ⟨rfl, inside.mpr decrypts, ?_⟩
      rw [decrypts] at pushed
      rw [pushed, written]
      rfl
    | some plain =>
      have overruns : ¬ block.InBounds := fun fine => by
        rw [inside.mp fine] at decrypts
        cases decrypts
      refine Or.inr ⟨plain, rfl, overruns, ?_⟩
      rw [decrypts] at pushed
      rw [pushed, written]
      rfl

end Answers

end Bacteria.Serv
