/-
**What the dispatcher makes of a payload and of a reply.**

* `Message` — a TCP message that selects one of the two Lua handlers, and what that handler returns.
* `luaArguments` — the arguments the handler's Lua function is called with (`runHandler_arguments`).
* `payload_iff` — the payload arrives unchanged, and is read inside `buf`, exactly without a NUL and with
  room for a terminator.
* `retdataOf_string`, `runHandler_reply` — the bytes a reply is sent as.
* `passesThrough_iff` — when payload and reply both pass through unchanged.
-/

import Bacteria.Serv.Survival

namespace Bacteria.Serv

open Clib Lua

section PassThrough

variable {ν : Type} (num : Numerals ν)

/-- The Lua value of a reply: a string, or nil. -/
def replyValue : Option Bytes → Value ν
  | none => .nil
  | some text => .string text

/-- A received message of at least an opcode, with Lua as the event finds it: `server_inited` is set, a
Lua handler is selected, and it returns a string, or nil from `undefined_event`. -/
structure Message (ν : Type) where
  fd : Nat
  data : Bytes
  spill : Bytes
  globals : Bytes → Value ν
  reply : Option Bytes
  opcode : 4 ≤ data.length
  fits : data.length ≤ sbuf
  inited : (globals (ascii "server_inited")).toBoolean = true
  lua : selectHandler (data.take 4) ≠ .event0
  nilReply : reply = none → selectHandler (data.take 4) = .notFound

namespace Message

/-- The bytes after the opcode. -/
def payload (m : Message ν) : Bytes := m.data.drop 4

/-- Lua, with the handler's outcome. -/
def world (m : Message ν) : World ν := ⟨m.globals, .returned [replyValue m.reply]⟩

/-- The event the message arrives with. -/
def event (m : Message ν) : Event ν := .readable m.fd ⟨.data m.data m.fits, m.spill, m.world⟩

/-- The memory from the start of `buf` on: the message, the zeroes of `bzero`, what lies behind. -/
def buf (m : Message ν) : Bytes :=
  m.data ++ List.replicate (sbuf - m.data.length) 0 ++ m.spill

/-- The handler the message selects. -/
def handler (m : Message ν) : Handler := selectHandler (m.data.take 4)

end Message

/-! ### The arguments -/

/-- The stack a handler calls its Lua function on, and the number of arguments. -/
def callStack (handler : Handler) (world : World ν) (call : Call) (stack : Stack ν) :
    Nat × Stack ν :=
  match handler with
  | .event0 => (0, stack)
  | .event1 => (4, preinitCallLuaEvenFunc num world (ascii "event1") call stack)
  | .notFound =>
    (5, pushString (preinitCallLuaEvenFunc num world (ascii "undefined_event") call stack)
      (cstr (call.buf.take 4)))

/-- The arguments, in order. -/
def luaArguments (handler : Handler) (world : World ν) (call : Call) (stack : Stack ν) :
    List (Value ν) :=
  ((callStack num handler world call stack).2.take
    (callStack num handler world call stack).1).reverse

/-- A Lua handler calls its function on that stack. -/
theorem runHandler_arguments {handler : Handler} (lua : handler ≠ .event0) (world : World ν)
    (call : Call) (stack : Stack ν) :
    ∃ reply : Block → Option Bytes, runHandler num handler world call stack =
      (do
        let (countargs, pushed) := callStack num handler world call stack
        let stack ← callLuaFunc countargs 1 world.outcome pushed
        let (retdata, stack) ← getRetData num stack
        .ok ⟨stack, reply retdata⟩) := by
  cases handler with
  | event0 => exact absurd rfl lua
  | event1 => exact ⟨Block.cString?, rfl⟩
  | notFound => exact ⟨fun retdata => retdata.cString?.filter (· ≠ []), rfl⟩

/-- **Socket, address, port and payload** are the first four arguments of either function. -/
theorem luaArguments_take {handler : Handler} (lua : handler ≠ .event0) (world : World ν)
    (call : Call) (stack : Stack ν) :
    (luaArguments num handler world call stack).take 4 =
      [.number (num.ofInt call.sock), .string call.uIp.bytes,
        .number (num.ofInt call.uPort.toNat), .string (cstr (call.buf.drop 4)).bytes] := by
  cases handler with
  | event0 => exact absurd rfl lua
  | event1 => rfl
  | notFound => rfl

/-! ### The payload -/

/-- **A payload arrives unchanged, and is read inside `buf`**, exactly without a NUL and with room for a
terminator behind the message. -/
theorem payload_iff (m : Message ν) :
    (cstr (m.buf.drop 4)).bytes = m.payload ∧ 4 + (cstr (m.buf.drop 4)).strlen < sbuf ↔
      m.data.length < sbuf ∧ (0 : Byte) ∉ m.payload := by
  have opcode := m.opcode
  have length : m.payload.length = m.data.length - 4 := List.length_drop
  have shape : m.buf.drop 4 =
      m.payload ++ (List.replicate (sbuf - m.data.length) 0 ++ m.spill) := by
    rw [Message.buf, List.append_assoc, List.drop_append_of_le_length opcode, Message.payload]
  constructor
  · rintro ⟨same, inside⟩
    rw [CString.strlen, same] at inside
    exact ⟨by omega, same ▸ (cstr (m.buf.drop 4)).noNul⟩
  · rintro ⟨short, clean⟩
    obtain ⟨zeroes, room⟩ : ∃ zeroes, sbuf - m.data.length = zeroes + 1 :=
      ⟨sbuf - m.data.length - 1, by omega⟩
    have read : (cstr (m.buf.drop 4)).bytes = m.payload := by
      rw [shape, room, List.replicate_succ, List.cons_append]
      exact cstr_append_nul clean _
    refine ⟨read, ?_⟩
    rw [CString.strlen, read]
    omega

/-! ### The reply -/

/-- What `GETRETDATA` formats for a returned string: the number it denotes, else its C string. -/
def replyText (text : Bytes) : CString :=
  match num.str2number text with
  | some n => ⟨decimalInt (num.toInt n).toInt, notMem_decimalInt (by decide) (by decide) _⟩
  | none => cstr text

/-- **The reply buffer of a returned string.** -/
theorem retdataOf_string (text : Bytes) :
    retdataOf num (.string text) =
      sprintfRetdata ((Block.malloc 512).write 0 [0]) (replyText num text).bytes := by
  rw [replyText]
  cases denotes : num.str2number text with
  | some n => simp only [retdataOf, Value.isNil, Value.toNumber, denotes]; rfl
  | none => simp only [retdataOf, Value.isNil, Value.toNumber, denotes, Value.toLString]; rfl

/-- The bytes of a reply that leave the handler. -/
theorem retdataOf_reply {text : Bytes} (fits : (replyText num text).strlen ≤ 511) :
    ∃ retdata, retdataOf num (.string text) = .ok retdata ∧
      retdata.cString? = some (replyText num text).bytes := by
  refine ⟨_, by rw [retdataOf_string, sprintfRetdata_ok fits], ?_⟩
  exact Block.cString?_of_holds (replyText num text).noNul (Block.holds_write _ 0 _)
    (Nat.lt_succ_of_le fits)

/-- **A handler sends what `retdata` holds**; an empty text is the same with and without a call of
`send`. -/
theorem runHandler_reply {m : Message ν} {retdata : Block} {text : Bytes}
    (filled : retdataOf num (replyValue m.reply) = .ok retdata)
    (holds : retdata.cString? = some text) (call : Call) (stack : Stack ν) :
    ∃ sent : Option Bytes, runHandler num m.handler m.world call stack = .ok ⟨stack, sent⟩ ∧
      sent.toList.flatten = text := by
  have answered : answer num m.world.outcome = .ok retdata := filled
  cases selected : m.handler with
  | event0 => exact absurd selected m.lua
  | event1 =>
    refine ⟨some text, ?_, by simp⟩
    rw [runHandler, event1_eq, answered, ← holds]
    rfl
  | notFound =>
    refine ⟨(some text).filter (· ≠ []), ?_, ?_⟩
    · rw [runHandler, notFound_eq, answered, ← holds]
      rfl
    · by_cases empty : text = []
      · simp [empty]
      · simp [empty, Option.filter]

/-- A reply that does not fit `retdata` is undefined. -/
theorem runHandler_undefined {m : Message ν} {text : Bytes} (returned : m.reply = some text)
    (long : ¬ (replyText num text).strlen ≤ 511) (call : Call) (stack : Stack ν) :
    runHandler num m.handler m.world call stack = .error .undefined := by
  have answered : answer num m.world.outcome = .error .undefined := by
    show retdataOf num (replyValue m.reply) = _
    rw [returned, replyValue, retdataOf_string, sprintfRetdata_undefined long]
  obtain ⟨reply, runs⟩ := runHandler_eq num m.lua m.world call stack
  rw [Message.handler, runs, answered]
  rfl

/-! ### The whole message -/

/-- The event runs the selected handler on the message's buffer. -/
theorem step_message {s : LoopState ν} (waiting : s.mode = .waiting) (m : Message ν)
    (isOpen : (s.peers m.fd).isSome = true) :
    step num s m.event = dispatch num s m.fd m.buf m.world := by
  have filled : Input.buf ⟨.data m.data m.fits, m.spill, m.world⟩ = some m.buf := by
    obtain ⟨fd, data, spill, globals, reply, opcode, fits, inited, lua, nilReply⟩ := m
    cases data with
    | nil => exact absurd opcode (by decide)
    | cons b bytes => rfl
  rw [Message.event, step_readable waiting isOpen, clientBranch_some m.fd filled]
  exact if_pos m.inited

theorem handler_buf (m : Message ν) : selectHandler (m.buf.take 4) = m.handler := by
  rw [Message.buf, List.append_assoc, List.take_append_of_le_length m.opcode, Message.handler]

/-- **Payload and reply pass through unchanged**: the handler's fourth argument is the payload, which is
read inside `buf`; `retdata` is not written past its end; and the peer is sent the returned string,
nothing for nil. -/
structure PassesThrough (s : LoopState ν) (m : Message ν) : Prop where
  argument : (luaArguments num m.handler m.world (s.call m.fd m.buf) s.stack)[3]? =
    some (.string m.payload)
  bufInside : 4 + (cstr (m.buf.drop 4)).strlen < sbuf
  retdataInside : (step num s m.event).mode ≠ .undefined
  sent : ∃ chunks : List Bytes,
    (step num s m.event).sent = s.sent ++ chunks.map (fun text => (m.fd, text)) ∧
      chunks.flatten = m.reply.getD []

/-- A reply that is formatted as it is: nil, a numeral in the form of `%d`, or another string without
NUL that fits `retdata`. -/
def ReplyIntact : Option Bytes → Prop
  | none => True
  | some text =>
    match num.str2number text with
    | some n => decimalInt (num.toInt n).toInt = text
    | none => (0 : Byte) ∉ text ∧ text.length ≤ 511

theorem replyIntact_iff (text : Bytes) :
    ReplyIntact num (some text) ↔
      (replyText num text).bytes = text ∧ (replyText num text).strlen ≤ 511 := by
  rw [ReplyIntact, replyText]
  cases denotes : num.str2number text with
  | some n => exact ⟨fun same => ⟨same, decimalInt_fits num n⟩, fun both => both.1⟩
  | none =>
    constructor
    · rintro ⟨clean, fits⟩
      have whole := (cstr_eq_iff text).mpr clean
      exact ⟨whole, by rw [CString.strlen, whole]; exact fits⟩
    · rintro ⟨whole, fits⟩
      rw [CString.strlen, whole] at fits
      exact ⟨(cstr_eq_iff text).mp whole, fits⟩

/-- What the loop has sent after a message whose reply fits. -/
theorem step_sent {s : LoopState ν} (waiting : s.mode = .waiting) {m : Message ν}
    (isOpen : (s.peers m.fd).isSome = true) {retdata : Block} {text : Bytes}
    (filled : retdataOf num (replyValue m.reply) = .ok retdata)
    (holds : retdata.cString? = some text) :
    (step num s m.event).mode = .waiting ∧ ∃ chunks : List Bytes,
      (step num s m.event).sent = s.sent ++ chunks.map (fun text => (m.fd, text)) ∧
        chunks.flatten = text := by
  obtain ⟨sent, runs, flat⟩ := runHandler_reply num filled holds (s.call m.fd m.buf) s.stack
  rw [step_message num waiting m isOpen, dispatch, handler_buf, runs]
  exact ⟨waiting, sent.toList, rfl, flat⟩

/-- What was sent on one descriptor determines the chunks. -/
theorem chunks_unique {fd : Nat} {before : List (Nat × Bytes)} {first second : List Bytes}
    (same : before ++ first.map (fun text => (fd, text)) =
      before ++ second.map (fun text => (fd, text))) : first = second := by
  have texts := congrArg (List.map Prod.snd) (List.append_cancel_left same)
  rw [List.map_map, List.map_map] at texts
  have snd : (Prod.snd ∘ fun text : Bytes => (fd, text)) = id := rfl
  rwa [snd, List.map_id, List.map_id] at texts

/-- **The reply half**: exactly an intact reply is sent as it is. -/
theorem reply_iff {s : LoopState ν} (waiting : s.mode = .waiting) (m : Message ν)
    (isOpen : (s.peers m.fd).isSome = true) :
    ((step num s m.event).mode ≠ .undefined ∧ ∃ chunks : List Bytes,
      (step num s m.event).sent = s.sent ++ chunks.map (fun text => (m.fd, text)) ∧
        chunks.flatten = m.reply.getD []) ↔ ReplyIntact num m.reply := by
  cases returned : m.reply with
  | none =>
    have filled : retdataOf num (replyValue m.reply) = .ok ((Block.malloc 512).write 0 [0]) := by
      rw [returned]
      rfl
    have holds : ((Block.malloc 512).write 0 [0]).cString? = some [] := rfl
    obtain ⟨waits, chunks, sent, flat⟩ := step_sent num waiting isOpen filled holds
    refine ⟨fun _ => trivial, fun _ => ⟨?_, chunks, sent, flat⟩⟩
    rw [waits]
    exact nofun
  | some text =>
    rw [replyIntact_iff]
    by_cases fits : (replyText num text).strlen ≤ 511
    · obtain ⟨retdata, filled, holds⟩ := retdataOf_reply num fits
      have value : retdataOf num (replyValue m.reply) = .ok retdata := by
        rw [returned]
        exact filled
      obtain ⟨waits, chunks, sent, flat⟩ := step_sent num waiting isOpen value holds
      constructor
      · rintro ⟨_, others, sentToo, whole⟩
        rw [chunks_unique (sentToo.symm.trans sent), flat] at whole
        exact ⟨whole, fits⟩
      · rintro ⟨whole, _⟩
        refine ⟨?_, chunks, sent, flat.trans whole⟩
        rw [waits]
        exact nofun
    · refine ⟨fun passes => absurd ?_ passes.1, fun both => absurd both.2 fits⟩
      rw [step_message num waiting m isOpen, dispatch, handler_buf,
        runHandler_undefined num returned fits]

/-- **When the dispatcher passes a message and its reply through unchanged.** -/
theorem passesThrough_iff {s : LoopState ν} (waiting : s.mode = .waiting) (m : Message ν)
    (isOpen : (s.peers m.fd).isSome = true) :
    PassesThrough num s m ↔
      m.data.length < sbuf ∧ (0 : Byte) ∉ m.payload ∧ ReplyIntact num m.reply := by
  have fourth : (luaArguments num m.handler m.world (s.call m.fd m.buf) s.stack)[3]? =
      some (.string (cstr (m.buf.drop 4)).bytes) := by
    have four := luaArguments_take num m.lua m.world (s.call m.fd m.buf) s.stack
    have index := @List.getElem?_take_of_lt _
      (luaArguments num m.handler m.world (s.call m.fd m.buf) s.stack) 3 4 (by decide)
    rw [← index, Message.handler, four]
    rfl
  have argument : (luaArguments num m.handler m.world (s.call m.fd m.buf) s.stack)[3]? =
      some (.string m.payload) ↔ (cstr (m.buf.drop 4)).bytes = m.payload := by
    rw [fourth, Option.some.injEq, Value.string.injEq]
  constructor
  · rintro ⟨same, bufInside, retdataInside, sent⟩
    obtain ⟨short, clean⟩ := (payload_iff m).mp ⟨argument.mp same, bufInside⟩
    exact ⟨short, clean, (reply_iff num waiting m isOpen).mp ⟨retdataInside, sent⟩⟩
  · rintro ⟨short, clean, intact⟩
    obtain ⟨same, bufInside⟩ := (payload_iff m).mpr ⟨short, clean⟩
    obtain ⟨retdataInside, sent⟩ := (reply_iff num waiting m isOpen).mpr intact
    exact ⟨argument.mpr same, bufInside, retdataInside, sent⟩

/-- The loop with one client. -/
def oneClient : LoopState Int :=
  step .integers (LoopState.start firstClient []) (.accepted 5 firstClient)

/-- The client sends `abcdhi`; `event1` returns this string. -/
def abcdMessage (reply : Bytes) : Message Int where
  fd := 5
  data := ascii "abcdhi"
  spill := []
  globals := quietWorld.globals
  reply := some reply
  opcode := by decide
  fits := by decide
  inited := rfl
  lua := by decide
  nilReply := nofun

theorem passesThrough_iff_sample :
    PassesThrough .integers oneClient (abcdMessage (ascii "ok")) :=
  (passesThrough_iff .integers rfl (abcdMessage (ascii "ok")) rfl).mpr
    ⟨by decide, by decide, by decide, by decide⟩

/-- **A reply that looks like a number is sent as that number.** -/
theorem numeralReply_changed :
    (step .integers oneClient (abcdMessage (ascii "007")).event).sent = [(5, ascii "7")] ∧
      ¬ PassesThrough .integers oneClient (abcdMessage (ascii "007")) := by
  have sent : (step .integers oneClient (abcdMessage (ascii "007")).event).sent =
      oneClient.sent ++ [ascii "7"].map (fun text => (5, text)) := rfl
  refine ⟨sent, fun passes => ?_⟩
  obtain ⟨chunks, sentToo, whole⟩ := passes.sent
  rw [chunks_unique (sentToo.symm.trans sent)] at whole
  exact absurd whole (by decide)

end PassThrough

end Bacteria.Serv
