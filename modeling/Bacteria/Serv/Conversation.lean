/-
**A message encrypted and decrypted by the server.**

* `turn_eq` — a turn by the opcode of the request.
* `GetsBack`, `Answerable`, `turn_back_iff` — the requests after which `serv_thread` gets back to
  `epoll_wait` with its heap blocks unharmed.
* `turn_inside_iff` — the requests whose heap blocks are not overrun: every `pizd` that ends with a
  plaintext writes its terminator one byte behind its block.
* `Carries`, `carries_iff` — the answer to a `pisk` has all of the message in it.
-/

import Bacteria.Serv.Script

namespace Bacteria.Serv

open Clib Lua EncDec

namespace Request

variable {ν : Type}

/-- The opcode, as the script is told it. -/
def ropcode (r : Request ν) : Bytes := (cstr (r.data.take 4)).bytes

/-- The bytes behind the opcode, as the script is told them. -/
def body (r : Request ν) : Bytes := (cstr (r.data.drop 4)).bytes

end Request

section Turns

variable {ν : Type} (num : Numerals ν) (script : Script ν) {fuel : Nat} {s : LoopState ν}
  {r : Request ν}

/-! ### The call of the script -/

/-- A text is read up to the first NUL, whatever follows a terminator. -/
theorem cstr_append_terminated (text rest : Bytes) :
    (cstr (text ++ 0 :: rest)).bytes = (cstr text).bytes := by
  obtain ⟨tail, shape⟩ := cstr_terminated text
  have split : text ++ 0 :: rest = (cstr text).bytes ++ 0 :: (tail ++ rest) := by
    rw [← List.singleton_append, ← List.append_assoc, shape, List.append_assoc, List.cons_append]
  rw [split]
  exact cstr_append_nul (cstr text).noNul _

/-- The bytes behind the opcode end with the message: `buf` was zeroed. -/
theorem cstr_buf (r : Request ν) : (cstr (r.buf.drop 4)).bytes = r.body := by
  have short := r.short
  obtain ⟨zeroes, room⟩ : ∃ zeroes, sbuf - r.data.length = zeroes + 1 :=
    ⟨sbuf - r.data.length - 1, by omega⟩
  rw [Request.buf, List.append_assoc, List.drop_append_of_le_length r.long, room,
    List.replicate_succ, List.cons_append]
  exact cstr_append_terminated _ _

theorem take_buf (r : Request ν) : r.buf.take 4 = r.data.take 4 := by
  rw [Request.buf, List.append_assoc, List.take_append_of_le_length r.long]

/-- **A turn** runs `undefined_event` on the body and the opcode of the request. -/
theorem turn_eq (fuel : Nat) (s : LoopState ν) (r : Request ν) : turn num script fuel s r =
    match undefinedEvent script fuel r.body r.ropcode r.results with
    | .running => none
    | .undefined => some ⟨{ s with mode := .undefined }, [], r.results⟩
    | .ended outcome blocks left => some ⟨step num s (r.event outcome), blocks, left⟩ := by
  have called : callScript script fuel (luaArguments num .notFound ⟨r.globals, .returned []⟩
      (s.call r.fd r.buf) s.stack) r.results =
        undefinedEvent script fuel (cstr (r.buf.drop 4)).bytes (cstr (r.buf.take 4)).bytes
          r.results := rfl
  rw [turn, called, cstr_buf, take_buf]
  rfl

/-! ### The end of a turn -/

/-- **What the loop makes of an outcome**: an empty reply is not sent. -/
theorem step_outcome (waiting : s.mode = .waiting) (isOpen : (s.peers r.fd).isSome = true)
    (outcome : Outcome ν) : step num s (r.event outcome) =
      match answer num outcome with
      | .ok retdata =>
        { s with sent := s.sent ++
          (retdata.cString?.filter (· ≠ [])).toList.map fun text => (r.fd, text) }
      | .error .panicked => { s with mode := .panicked }
      | .error .undefined => { s with mode := .undefined } := by
  have filled : Input.buf ⟨.data r.data (Nat.le_of_lt r.short), r.spill, ⟨r.globals, outcome⟩⟩ =
      some r.buf := by
    obtain ⟨fd, data, spill, globals, results, long, short, inited, undefined⟩ := r
    cases data with
    | nil => exact absurd long (by decide)
    | cons b bytes => rfl
  have inited : World.servInited ⟨r.globals, outcome⟩ = true := r.inited
  have selected : selectHandler (r.buf.take 4) = .notFound := by
    rw [take_buf, r.undefined]
  rw [Request.event, step_readable waiting isOpen, clientBranch_some r.fd filled, if_pos inited,
    dispatch, selected, runHandler, notFound_eq]
  cases answer num outcome with
  | ok retdata => rfl
  | error stop => cases stop <;> rfl

/-- The replies of the script are no numerals. -/
structure Textual (num : Numerals ν) : Prop where
  answer : ∀ text, num.str2number (answerPrefix ++ text) = none
  nothing : num.str2number (ascii "NIL!") = none

/-- **A text that is no numeral** is sent if `retdata` has room for it. -/
theorem step_text (waiting : s.mode = .waiting) (isOpen : (s.peers r.fd).isSome = true) {text : Bytes}
    (textual : num.str2number text = none) (clean : (0 : Byte) ∉ text) (nonempty : text ≠ []) :
    step num s (r.event (.returned [.string text])) =
      if text.length ≤ 511 then { s with sent := s.sent ++ [(r.fd, text)] }
      else { s with mode := .undefined } := by
  have whole : (replyText num text).bytes = text := by
    rw [replyText, textual]
    exact (cstr_eq_iff text).mpr clean
  rw [step_outcome num waiting isOpen]
  by_cases fits : text.length ≤ 511
  · obtain ⟨retdata, filled, holds⟩ := @retdataOf_reply ν num text
      (by rw [CString.strlen, whole]; exact fits)
    have answered : answer num (.returned [.string text]) = .ok retdata := filled
    rw [answered, if_pos fits]
    simp only [holds, whole, Option.filter, decide_eq_true nonempty, if_true, Option.toList_some,
      List.map_cons, List.map_nil]
  · have answered : answer num (.returned [.string text]) = .error .undefined := by
      show retdataOf num (.string text) = _
      rw [retdataOf_string, whole, sprintfRetdata_undefined fits]
    rw [answered, if_neg fits]

theorem step_nil (waiting : s.mode = .waiting) (isOpen : (s.peers r.fd).isSome = true) :
    step num s (r.event (.returned [.nil])) = s := by
  have answered : answer num (.returned [.nil] : Outcome ν) =
      .ok ((Block.malloc 512).write 0 [0]) := rfl
  have empty : ((Block.malloc 512).write 0 [0]).cString? = some [] := rfl
  rw [step_outcome num waiting isOpen, answered]
  simp [empty, Option.filter]

theorem step_raised (waiting : s.mode = .waiting) (isOpen : (s.peers r.fd).isSome = true)
    (message : Value ν) : step num s (r.event (.raised message)) = { s with mode := .panicked } := by
  rw [step_outcome num waiting isOpen]
  rfl

/-! ### A turn by its opcode -/

theorem ropcode_take (r : Request ν) : r.ropcode.take 4 = r.ropcode := by
  refine List.take_of_length_le (le_trans (cstr_length_le _) ?_)
  rw [List.length_take]
  exact Nat.min_le_left _ _

theorem tohex_length (text : Bytes) : (tohex text).length = 2 * text.length := by
  induction text with
  | nil => rfl
  | cons b text ih =>
    rw [tohex] at ih
    rw [tohex, List.flatMap_cons, List.length_append, ih, List.length_cons, hexPair, List.length_cons,
      List.length_cons, List.length_nil]
    omega

theorem tohex_clean (text : Bytes) : (0 : Byte) ∉ tohex text := by
  intro member
  obtain ⟨b, _, inPair⟩ := List.mem_flatMap.mp member
  have bound := b.toNat_lt
  rcases List.mem_pair.mp inPair with zero | zero
  · exact (hexDigit_spec (b.toNat / 16) (by omega)).2.2.2.2 zero.symm
  · exact (hexDigit_spec (b.toNat % 16) (by omega)).2.2.2.2 zero.symm

/-- **A reply with text** is sent if the text has at most 498 bytes. -/
theorem step_answer (textual : Textual num) (waiting : s.mode = .waiting)
    (isOpen : (s.peers r.fd).isSome = true) {text : Bytes} (clean : (0 : Byte) ∉ text) :
    step num s (r.event (.returned [.string (answerPrefix ++ text)])) =
      if text.length ≤ 498 then { s with sent := s.sent ++ [(r.fd, answerPrefix ++ text)] }
      else { s with mode := .undefined } := by
  have allClean : (0 : Byte) ∉ answerPrefix ++ text := by
    rw [List.mem_append, not_or]
    exact ⟨by decide, clean⟩
  have nonempty : answerPrefix ++ text ≠ [] := List.append_ne_nil_of_left_ne_nil (by decide) text
  have length : (answerPrefix ++ text).length = 13 + text.length := List.length_append
  have fits : (answerPrefix ++ text).length ≤ 511 ↔ text.length ≤ 498 := by omega
  rw [step_text num waiting isOpen (textual.answer text) allClean nonempty]
  simp only [fits]

/-- **Other opcodes** are answered with nothing. -/
theorem turn_other (waiting : s.mode = .waiting) (isOpen : (s.peers r.fd).isSome = true)
    (noPisk : r.ropcode ≠ ascii "pisk") (noPizd : r.ropcode ≠ ascii "pizd") :
    turn num script fuel s r = some ⟨s, [], r.results⟩ := by
  rw [turn_eq, undefinedEvent, ropcode_take, if_neg noPisk, if_neg noPizd]
  simp only [step_nil num waiting isOpen]

/-- **Without a message** the turn does not get back to the loop. -/
theorem turn_silent (enough : 32 ≤ fuel) (waiting : s.mode = .waiting)
    (isOpen : (s.peers r.fd).isSome = true)
    (handled : r.ropcode = ascii "pisk" ∨ r.ropcode = ascii "pizd")
    (silent : ∀ msg left, readMessage r.results ≠ .message (some msg) left) :
    ∀ served, turn num script fuel s r = some served →
      served.state.mode ≠ .waiting ∧ served.state.sent = s.sent ∧ served.blocks = [] := by
  intro served found
  obtain ⟨answer, shape⟩ : ∃ answer, undefinedEvent script fuel r.body r.ropcode r.results =
      converse script fuel r.body r.results answer := by
    rcases handled with pisk | pizd
    · exact ⟨_, by rw [undefinedEvent, ropcode_take, if_pos pisk]; rfl⟩
    · have noPisk : r.ropcode ≠ ascii "pisk" := by
        rw [pizd]
        decide
      exact ⟨_, by rw [undefinedEvent, ropcode_take, if_neg noPisk, if_pos pizd]; rfl⟩
  rw [turn_eq, shape] at found
  rcases converse_silent script enough silent answer with runs | undefined | ⟨left, raises⟩
  · rw [runs] at found
    cases found
  · rw [undefined] at found
    obtain rfl := Option.some.inj found
    exact ⟨nofun, rfl, rfl⟩
  · rw [raises] at found
    obtain rfl := Option.some.inj found
    simp only [step_raised num waiting isOpen]
    exact ⟨nofun, trivial, trivial⟩

/-- **A turn with `pisk`** that reads a message. -/
theorem turn_pisk (lawful : script.evp.Lawful) (textual : Textual num) (enough : 32 ≤ fuel)
    (waiting : s.mode = .waiting) (isOpen : (s.peers r.fd).isSome = true)
    (isPisk : r.ropcode = ascii "pisk") {msg : Bytes} {left : List RecvResult}
    (heard : readMessage r.results = .message (some msg) left) :
    ∃ block : Block, block.InBounds ∧
      let text := (cstr (ciphertext script.evp r.body msg)).bytes
      turn num script fuel s r = some ⟨if text.length ≤ 249 then
        { s with sent := s.sent ++ [(r.fd, answerPrefix ++ tohex text)] }
        else { s with mode := .undefined }, [block], left⟩ := by
  obtain ⟨block, inside, returns⟩ := pisk_eq script lawful enough (cstr (r.data.drop 4)).noNul heard
  refine ⟨block, inside, ?_⟩
  have fits : (tohex (cstr (ciphertext script.evp r.body msg)).bytes).length ≤ 498 ↔
      (cstr (ciphertext script.evp r.body msg)).bytes.length ≤ 249 := by
    rw [tohex_length]
    omega
  have sent := @step_answer ν num s r textual waiting isOpen _
    (tohex_clean (cstr (ciphertext script.evp r.body msg)).bytes)
  rw [if_congr fits rfl rfl] at sent
  rw [turn_eq, undefinedEvent, ropcode_take, if_pos isPisk]
  simp only [Request.body] at sent ⊢
  rw [returns]
  simp only [sent]

/-- **A turn with `pizd`** that reads a message. -/
theorem turn_pizd (lawful : script.evp.Lawful) (textual : Textual num) (enough : 32 ≤ fuel)
    (waiting : s.mode = .waiting) (isOpen : (s.peers r.fd).isSome = true)
    (isPizd : r.ropcode = ascii "pizd") {msg : Bytes} {left : List RecvResult}
    (heard : readMessage r.results = .message (some msg) left) :
    (fromhex script.wide msg = none ∧
      turn num script fuel s r = some ⟨{ s with mode := .panicked }, [], left⟩) ∨
    ∃ data block, fromhex script.wide msg = some data ∧
      ((plaintext script.evp r.body data = none ∧ block.InBounds ∧ turn num script fuel s r =
        some ⟨{ s with sent := s.sent ++ [(r.fd, ascii "NIL!")] }, [block], left⟩) ∨
      ∃ plain, plaintext script.evp r.body data = some plain ∧ ¬ block.InBounds ∧
        let text := (cstr plain).bytes
        turn num script fuel s r = some ⟨if text.length ≤ 498 then
          { s with sent := s.sent ++ [(r.fd, answerPrefix ++ text)] }
          else { s with mode := .undefined }, [block], left⟩) := by
  have noPisk : r.ropcode ≠ ascii "pisk" := by
    rw [isPizd]
    decide
  rw [turn_eq, undefinedEvent, ropcode_take, if_neg noPisk, if_pos isPizd]
  rcases pizd_eq script lawful enough (cstr (r.data.drop 4)).noNul heard with
    ⟨noHex, returns⟩ | ⟨data, block, read, ⟨fails, inside, returns⟩ | ⟨plain, decrypts, overruns, returns⟩⟩
  · refine Or.inl ⟨noHex, ?_⟩
    simp only [Request.body]
    rw [returns]
    simp only [step_raised num waiting isOpen]
  · refine Or.inr ⟨data, block, read, Or.inl ⟨fails, inside, ?_⟩⟩
    simp only [Request.body]
    rw [returns]
    have sent := step_text num waiting isOpen textual.nothing (by decide) (by decide)
    rw [if_pos (by decide)] at sent
    simp only [sent]
  · refine Or.inr ⟨data, block, read, Or.inr ⟨plain, decrypts, overruns, ?_⟩⟩
    simp only [Request.body]
    rw [returns]
    simp only [step_answer num textual waiting isOpen (cstr plain).noNul]

/-! ### Requests the server survives -/

/-- **The turn gets back to `epoll_wait`**, and no heap block was written past its end. -/
def GetsBack (fuel : Nat) (s : LoopState ν) (r : Request ν) : Prop :=
  ∃ served, turn num script fuel s r = some served ∧ served.state.mode = .waiting ∧
    ∀ block ∈ served.blocks, block.InBounds

/-- **A request that can be answered**: `pisk` with a message whose reply fits `retdata`, `pizd` with a
text that `fromhex` accepts and that is not decrypted, or any other opcode. -/
def Answerable (script : Script ν) (r : Request ν) : Prop :=
  (r.ropcode = ascii "pisk" → ∃ msg left, readMessage r.results = .message (some msg) left ∧
    (cstr (ciphertext script.evp r.body msg)).strlen ≤ 249) ∧
  (r.ropcode = ascii "pizd" → ∃ msg left data, readMessage r.results = .message (some msg) left ∧
    fromhex script.wide msg = some data ∧ plaintext script.evp r.body data = none)

/-- What was read is read again. -/
theorem readMessage_unique {results left other : List RecvResult} {first second : Bytes}
    (heard : readMessage results = .message (some first) left)
    (again : readMessage results = .message (some second) other) : second = first := by
  have same := again.symm.trans heard
  injection same with texts
  exact Option.some.inj texts

theorem turn_pisk_back_iff (lawful : script.evp.Lawful) (textual : Textual num) (enough : 32 ≤ fuel)
    (waiting : s.mode = .waiting) (isOpen : (s.peers r.fd).isSome = true)
    (isPisk : r.ropcode = ascii "pisk") :
    GetsBack num script fuel s r ↔ ∃ msg left, readMessage r.results = .message (some msg) left ∧
      (cstr (ciphertext script.evp r.body msg)).strlen ≤ 249 := by
  by_cases silent : ∀ msg left, readMessage r.results ≠ .message (some msg) left
  · refine iff_of_false ?_ fun ⟨msg, left, heard, _⟩ => silent msg left heard
    rintro ⟨served, found, back, _⟩
    exact (turn_silent num script enough waiting isOpen (Or.inl isPisk) silent served found).1 back
  · push Not at silent
    obtain ⟨msg, left, heard⟩ := silent
    obtain ⟨block, inside, ends⟩ :=
      turn_pisk num script lawful textual enough waiting isOpen isPisk heard
    constructor
    · rintro ⟨served, found, back, _⟩
      obtain rfl := Option.some.inj (ends.symm.trans found)
      refine ⟨msg, left, heard, ?_⟩
      by_contra long
      simp only [if_neg (show ¬ (cstr (ciphertext script.evp r.body msg)).bytes.length ≤ 249 from long)]
        at back
      cases back
    · rintro ⟨other, rest, again, fits⟩
      obtain rfl := readMessage_unique heard again
      refine ⟨_, ends, ?_, List.forall_mem_singleton.mpr inside⟩
      simp only [if_pos (show (cstr (ciphertext script.evp r.body other)).bytes.length ≤ 249 from fits)]
      exact waiting

theorem turn_pizd_back_iff (lawful : script.evp.Lawful) (textual : Textual num) (enough : 32 ≤ fuel)
    (waiting : s.mode = .waiting) (isOpen : (s.peers r.fd).isSome = true)
    (isPizd : r.ropcode = ascii "pizd") :
    GetsBack num script fuel s r ↔
      ∃ msg left data, readMessage r.results = .message (some msg) left ∧
        fromhex script.wide msg = some data ∧ plaintext script.evp r.body data = none := by
  by_cases silent : ∀ msg left, readMessage r.results ≠ .message (some msg) left
  · refine iff_of_false ?_ fun ⟨msg, left, _, heard, _⟩ => silent msg left heard
    rintro ⟨served, found, back, _⟩
    exact (turn_silent num script enough waiting isOpen (Or.inr isPizd) silent served found).1 back
  · push Not at silent
    obtain ⟨msg, left, heard⟩ := silent
    rcases turn_pizd num script lawful textual enough waiting isOpen isPizd heard with
      ⟨noHex, ends⟩ | ⟨data, block, read, ⟨fails, inside, ends⟩ | ⟨plain, decrypts, overruns, ends⟩⟩
    · refine iff_of_false ?_ ?_
      · rintro ⟨served, found, back, _⟩
        obtain rfl := Option.some.inj (ends.symm.trans found)
        cases back
      · rintro ⟨other, _, data, again, read, _⟩
        rw [readMessage_unique heard again, noHex] at read
        cases read
    · exact iff_of_true ⟨_, ends, waiting, List.forall_mem_singleton.mpr inside⟩
        ⟨msg, left, data, heard, read, fails⟩
    · refine iff_of_false ?_ ?_
      · rintro ⟨served, found, _, inside⟩
        obtain rfl := Option.some.inj (ends.symm.trans found)
        exact overruns (inside block (List.mem_singleton_self _))
      · rintro ⟨other, _, otherData, again, readAgain, fails⟩
        rw [readMessage_unique heard again, read] at readAgain
        obtain rfl := Option.some.inj readAgain
        rw [decrypts] at fails
        cases fails

/-- **The server survives exactly the requests that can be answered.** -/
theorem turn_back_iff (lawful : script.evp.Lawful) (textual : Textual num) (enough : 32 ≤ fuel)
    (waiting : s.mode = .waiting) (isOpen : (s.peers r.fd).isSome = true) :
    GetsBack num script fuel s r ↔ Answerable script r := by
  by_cases isPisk : r.ropcode = ascii "pisk"
  · have noPizd : r.ropcode ≠ ascii "pizd" := by
      rw [isPisk]
      decide
    rw [turn_pisk_back_iff num script lawful textual enough waiting isOpen isPisk]
    exact ⟨fun heard => ⟨fun _ => heard, fun isPizd => absurd isPizd noPizd⟩,
      fun answers => answers.1 isPisk⟩
  · by_cases isPizd : r.ropcode = ascii "pizd"
    · rw [turn_pizd_back_iff num script lawful textual enough waiting isOpen isPizd]
      exact ⟨fun heard => ⟨fun pisk => absurd pisk isPisk, fun _ => heard⟩,
        fun answers => answers.2 isPizd⟩
    · refine iff_of_true ⟨_, turn_other num script waiting isOpen isPisk isPizd, waiting,
        fun block member => by cases member⟩ ?_
      exact ⟨fun pisk => absurd pisk isPisk, fun pizd => absurd pizd isPizd⟩

/-! ### Blocks that are overrun -/

/-- A `pizd` that ends with a plaintext. -/
def Decrypts (script : Script ν) (r : Request ν) : Prop :=
  r.ropcode = ascii "pizd" ∧ ∃ msg left data plain,
    readMessage r.results = .message (some msg) left ∧ fromhex script.wide msg = some data ∧
      plaintext script.evp r.body data = some plain

/-- **The heap blocks of a turn are overrun** exactly if it decrypts something. -/
theorem turn_inside_iff (lawful : script.evp.Lawful) (textual : Textual num) (enough : 32 ≤ fuel)
    (waiting : s.mode = .waiting) (isOpen : (s.peers r.fd).isSome = true) {served : Served ν}
    (found : turn num script fuel s r = some served) :
    (∀ block ∈ served.blocks, block.InBounds) ↔ ¬ Decrypts script r := by
  have none : served.blocks = [] → ∀ block ∈ served.blocks, block.InBounds := fun empty block member => by
    rw [empty] at member
    cases member
  have handled : r.ropcode = ascii "pisk" → ¬ Decrypts script r := fun isPisk decrypts =>
    absurd (isPisk.symm.trans decrypts.1) (by decide)
  by_cases isPizd : r.ropcode = ascii "pizd"
  · by_cases silent : ∀ msg left, readMessage r.results ≠ .message (some msg) left
    · refine iff_of_true (none ?_) fun ⟨_, msg, left, _, _, heard, _⟩ => silent msg left heard
      exact (turn_silent num script enough waiting isOpen (Or.inr isPizd) silent served found).2.2
    push Not at silent
    obtain ⟨msg, left, heard⟩ := silent
    rcases turn_pizd num script lawful textual enough waiting isOpen isPizd heard with
      ⟨noHex, ends⟩ | ⟨data, block, read, ⟨fails, inside, ends⟩ | ⟨plain, decrypts, overruns, ends⟩⟩
    · obtain rfl := Option.some.inj (ends.symm.trans found)
      refine iff_of_true (none rfl) ?_
      rintro ⟨_, other, _, data, _, again, read, _⟩
      rw [readMessage_unique heard again, noHex] at read
      cases read
    · obtain rfl := Option.some.inj (ends.symm.trans found)
      refine iff_of_true (List.forall_mem_singleton.mpr inside) ?_
      rintro ⟨_, other, _, otherData, plain, again, readAgain, decrypts⟩
      rw [readMessage_unique heard again, read] at readAgain
      obtain rfl := Option.some.inj readAgain
      rw [fails] at decrypts
      cases decrypts
    · obtain rfl := Option.some.inj (ends.symm.trans found)
      refine iff_of_false (fun inside => overruns (inside block (List.mem_singleton_self _))) ?_
      exact not_not.mpr ⟨isPizd, msg, left, data, plain, heard, read, decrypts⟩
  · have noDecryption : ¬ Decrypts script r := fun decrypts => isPizd decrypts.1
    refine iff_of_true ?_ noDecryption
    by_cases isPisk : r.ropcode = ascii "pisk"
    · by_cases silent : ∀ msg left, readMessage r.results ≠ .message (some msg) left
      · exact none
          (turn_silent num script enough waiting isOpen (Or.inl isPisk) silent served found).2.2
      push Not at silent
      obtain ⟨msg, left, heard⟩ := silent
      obtain ⟨block, inside, ends⟩ :=
        turn_pisk num script lawful textual enough waiting isOpen isPisk heard
      obtain rfl := Option.some.inj (ends.symm.trans found)
      exact List.forall_mem_singleton.mpr inside
    · have ends := @turn_other ν num script fuel s r waiting isOpen isPisk isPizd
      obtain rfl := Option.some.inj (ends.symm.trans found)
      exact none rfl

/-! ### What an answer carries -/

/-- **The answer to a `pisk` carries a message**: it is sent, with the heap blocks unharmed, and its text
is hexadecimal data that the key of the request decrypts to the message. -/
def Carries (fuel : Nat) (s : LoopState ν) (r : Request ν) (msg : Bytes) : Prop :=
  ∃ served text data, turn num script fuel s r = some served ∧ served.state.mode = .waiting ∧
    (∀ block ∈ served.blocks, block.InBounds) ∧
    served.state.sent = s.sent ++ [(r.fd, answerPrefix ++ text)] ∧
    fromhex script.wide text = some data ∧
    script.evp.decrypt .chacha20Poly1305 (normalKey r.body).val handlerIv data = some msg

theorem ciphertext_length {evp : Evp} (lawful : evp.Lawful) (buf msg : Bytes) :
    (ciphertext evp buf msg).length = msg.length :=
  lawful.encrypt_length .chacha20Poly1305 _ _ msg

/-- **When an answer carries its message**: the ciphertext has no NUL and at most 249 bytes. -/
theorem carries_iff (lawful : script.evp.Lawful) (textual : Textual num) (enough : 32 ≤ fuel)
    (waiting : s.mode = .waiting) (isOpen : (s.peers r.fd).isSome = true)
    (isPisk : r.ropcode = ascii "pisk") {msg : Bytes} {left : List RecvResult}
    (heard : readMessage r.results = .message (some msg) left) :
    Carries num script fuel s r msg ↔
      (0 : Byte) ∉ ciphertext script.evp r.body msg ∧ msg.length ≤ 249 := by
  obtain ⟨block, inside, ends⟩ :=
    turn_pisk num script lawful textual enough waiting isOpen isPisk heard
  have whole := fromhex_tohex script.wide (cstr (ciphertext script.evp r.body msg)).bytes
  have length := ciphertext_length lawful r.body msg
  constructor
  · rintro ⟨served, text, data, found, back, _, sent, read, decrypts⟩
    obtain rfl := Option.some.inj (ends.symm.trans found)
    by_cases fits : (cstr (ciphertext script.evp r.body msg)).bytes.length ≤ 249
    · simp only [if_pos fits] at sent
      have same := congrArg Prod.snd (List.singleton_inj.mp (List.append_cancel_left sent))
      rw [← List.append_cancel_left same, whole] at read
      obtain rfl := Option.some.inj read
      -- the data have the length of the ciphertext only if no NUL cuts it
      have uncut : (cstr (ciphertext script.evp r.body msg)).bytes.length = msg.length :=
        lawful.decrypt_length _ _ _ _ _ decrypts
      refine ⟨fun nul => ?_, by omega⟩
      have shorter := cstr_length_lt nul
      omega
    · simp only [if_neg fits] at back
      cases back
  · rintro ⟨clean, fits⟩
    have uncut := (cstr_eq_iff _).mpr clean
    rw [uncut] at whole ends
    simp only [length, if_pos fits] at ends
    exact ⟨_, _, _, ends, waiting, List.forall_mem_singleton.mpr inside, rfl, whole,
      lawful.decrypt_encrypt _ _ _ _⟩

end Turns

/-! ### A client of the server -/

section Sample

theorem textual_integers : Textual Numerals.integers where
  answer text := by
    have other : ¬ (answerPrefix ++ text).all isDigit = true := by
      rw [List.all_append, Bool.and_eq_true]
      exact fun both => absurd both.1 (by decide)
    show (if answerPrefix ++ text ≠ [] ∧ (answerPrefix ++ text).all isDigit then
      some (digitsValue (answerPrefix ++ text) : Int) else none) = none
    exact if_neg fun both => other both.2
  nothing := by decide

/-- The script over the data bytes of ChaCha20-Poly1305. -/
def sampleScript : Script Int := ⟨Evp.chacha20, 0, .nil⟩

/-- A message that arrives at once, behind the end of a line. -/
def sampleResults : List RecvResult :=
  [.data (ascii "\n") (by decide), .data (ascii "absolute") (by decide)]

theorem quietWorld_inited : (quietWorld.globals (ascii "server_inited")).toBoolean = true := rfl

/-- `pisk` without a key, and the message. -/
def sampleFirst : Request Int where
  fd := 5
  data := ascii "pisk"
  spill := []
  globals := quietWorld.globals
  results := sampleResults
  long := by decide
  short := by decide
  inited := quietWorld_inited
  undefined := by decide

/-- `pizd` without a key, and a text without NUL that fits the receive buffer of the script. -/
def sampleAgain (text : Bytes) : Request Int where
  fd := 5
  data := ascii "pizd"
  spill := []
  globals := quietWorld.globals
  results := if fits : text.length ≤ 1024 ∧ (0 : Byte) ∉ text then
    [.data text (lt_of_le_of_lt fits.1 (by decide))] else []
  long := by decide
  short := by decide
  inited := quietWorld_inited
  undefined := by decide

theorem sampleResults_heard :
    readMessage sampleResults = .message (some (ascii "absolute")) [] := by
  have lineEnd : recvText (.data (ascii "\n") (by decide)) = some (some (ascii "\n")) :=
    recvText_data (by decide) (by decide) (by decide) (by decide)
  have word : recvText (.data (ascii "absolute") (by decide)) = some (some (ascii "absolute")) :=
    recvText_data (by decide) (by decide) (by decide) (by decide)
  have skipped := @readMessage_skip [.data (ascii "\n") (by decide)]
    (fun r member => ⟨ascii "\n", by rw [List.mem_singleton.mp member, lineEnd], by decide⟩)
    [.data (ascii "absolute") (by decide)]
  refine skipped.trans ?_
  rw [readMessage, word]
  rfl

theorem sampleAgain_heard {text : Bytes} (clean : (0 : Byte) ∉ text) (long : 2 ≤ text.length)
    (fits : text.length ≤ 1024) :
    readMessage (sampleAgain text).results = .message (some text) [] := by
  have received := recvText_data clean (List.length_pos_iff.mp (by omega)) fits
    (lt_of_le_of_lt fits (by decide))
  rw [sampleAgain, dif_pos ⟨fits, clean⟩, readMessage, received]
  exact if_pos long

/-- A message of eight bytes, and a ciphertext without NUL. -/
theorem carries_sample :
    Carries .integers sampleScript 32 oneClient sampleFirst (ascii "absolute") :=
  (carries_iff .integers sampleScript chacha20_lawful textual_integers (by decide) rfl (by decide)
    (by decide) sampleResults_heard).mpr ⟨by decide +kernel, by decide⟩

/-- `pisk` for a message whose ciphertext fits. -/
theorem turn_back_sample : GetsBack .integers sampleScript 32 oneClient sampleFirst :=
  (turn_back_iff .integers sampleScript chacha20_lawful textual_integers (by decide) rfl (by decide)).mpr
    ⟨fun _ => ⟨ascii "absolute", [], sampleResults_heard, by decide +kernel⟩,
      fun isPizd => absurd isPizd (by decide)⟩

/-- `pizd` for two characters, which are decrypted to some byte. -/
theorem turn_inside_sample : ∃ served,
    turn .integers sampleScript 32 oneClient (sampleAgain (ascii "61")) = some served ∧
      ¬ ∀ block ∈ served.blocks, block.InBounds := by
  have heard := @sampleAgain_heard (ascii "61") (by decide) (by decide) (by decide)
  have isPizd : (sampleAgain (ascii "61")).ropcode = ascii "pizd" := rfl
  have read : fromhex 0 (ascii "61") = some [97] := by decide
  obtain ⟨plain, decrypts⟩ : ∃ plain, plaintext Evp.chacha20 (sampleAgain (ascii "61")).body [97] =
      some plain := ⟨_, rfl⟩
  have waiting : oneClient.mode = .waiting := rfl
  obtain ⟨served, ends⟩ : ∃ served,
      turn .integers sampleScript 32 oneClient (sampleAgain (ascii "61")) = some served := by
    rcases turn_pizd .integers sampleScript chacha20_lawful textual_integers (Nat.le_refl 32) waiting
        (by decide) isPizd heard with
      ⟨_, ends⟩ | ⟨_, _, _, ⟨_, _, ends⟩ | ⟨_, _, _, ends⟩⟩ <;> exact ⟨_, ends⟩
  have overruns := (turn_inside_iff .integers sampleScript chacha20_lawful textual_integers
    (Nat.le_refl 32) waiting (by decide) ends).not
  exact ⟨served, ends, overruns.mpr (not_not.mpr
    ⟨isPizd, ascii "61", [], [97], plain, heard, read, decrypts⟩)⟩

end Sample

end Bacteria.Serv
