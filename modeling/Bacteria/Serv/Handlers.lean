/-
**The opcode handlers of src/net/opcodes.h and src/net/opcodes.cpp.**

* `event0`, `event1`, `notFound` — the three handlers; `Stop` is what keeps one from returning.
* `answer` — what the Lua function's outcome makes of the reply buffer `retdata`.
* `event1_eq`, `notFound_eq` — the stack effect: when `answer` has a result, the stack is what it was
  before the handler.
* `Harmless`, `answer_isOk_iff` — the outcomes that have one.
-/

import Bacteria.Lib.Block
import Bacteria.Lib.Decimal
import Bacteria.Lib.Lua

namespace Bacteria.Serv

open Clib Lua

/-- What keeps a handler from returning: `luaL_error` outside a protected call, which runs the panic
function and ends the process, or a step the language does not define. -/
inductive Stop where
  | panicked
  | undefined
deriving DecidableEq

/-- What the dispatcher passes to a handler; `buf` are the bytes from the start of the array on. -/
structure Call where
  sock : Nat
  uIp : CString
  uPort : UInt16
  buf : Bytes
deriving DecidableEq

/-- What Lua has at hand when a handler runs: its global table, and how the function ends that the
handler calls. -/
structure World (ν : Type) where
  globals : Bytes → Value ν
  outcome : Outcome ν

/-- What a handler leaves: the Lua stack, and the bytes it gave to `send`, if it called it. -/
structure Answer (ν : Type) where
  stack : Stack ν
  sent : Option Bytes

section Handlers

variable {ν : Type} (num : Numerals ν)

/-- `PREINIT_CALLLUAEVENFUNC(namefunc)`. -/
def preinitCallLuaEvenFunc (world : World ν) (namefunc : Bytes) (call : Call) (stack : Stack ν) :
    Stack ν :=
  let stack := push stack (world.globals namefunc)
  let stack := push stack (.number (num.ofInt call.sock))
  let stack := pushString stack call.uIp
  let stack := push stack (.number (num.ofInt call.uPort.toNat))
  pushString stack (cstr (call.buf.drop 4))

/-- `CALLLUAFUNC(countargs, countresults)`. -/
def callLuaFunc (countargs countresults : Nat) (outcome : Outcome ν) (stack : Stack ν) :
    Except Stop (Stack ν) :=
  match pcall countargs countresults outcome stack with
  | (0, stack) => .ok stack
  | (_ + 1, _) => .error .panicked

/-- `sprintf` of a text into `retdata`; past its end nothing is defined. -/
def sprintfRetdata (retdata : Block) (text : Bytes) : Except Stop Block :=
  let retdata := retdata.write 0 (text ++ [0])
  if retdata.InBounds then .ok retdata else .error .undefined

/-- `retdata` for the value a Lua function returned. -/
def retdataOf (value : Value ν) : Except Stop Block :=
  let retdata := (Block.malloc 512).write 0 [0]
  if value.isNil then .ok retdata
  else
    match value.toNumber num with
    | some n => sprintfRetdata retdata (decimalInt (num.toInt n).toInt)
    | none =>
      match value.toLString num with
      | some text => sprintfRetdata retdata (cstr text).bytes
      | none => .error .undefined

/-- `GETRETDATA`. -/
def getRetData (stack : Stack ν) : Except Stop (Block × Stack ν) := do
  let retdata ← retdataOf num (top stack)
  .ok (retdata, pop stack 1)

/-- `event1`: what `retdata` holds is sent, also when it is empty. -/
def event1 (world : World ν) (call : Call) (stack : Stack ν) : Except Stop (Answer ν) := do
  let stack := preinitCallLuaEvenFunc num world (ascii "event1") call stack
  let stack ← callLuaFunc 4 1 world.outcome stack
  let (retdata, stack) ← getRetData num stack
  .ok ⟨stack, retdata.cString?⟩

/-- `event0` leaves Lua alone. -/
def event0 (stack : Stack ν) : Except Stop (Answer ν) := .ok ⟨stack, none⟩

/-- `notFound`: the opcode is a fifth argument, and an empty reply is not sent. -/
def notFound (world : World ν) (call : Call) (op : Bytes) (stack : Stack ν) :
    Except Stop (Answer ν) := do
  let stack := preinitCallLuaEvenFunc num world (ascii "undefined_event") call stack
  let stack := pushString stack (cstr op)
  let stack ← callLuaFunc 5 1 world.outcome stack
  let (retdata, stack) ← getRetData num stack
  .ok ⟨stack, retdata.cString?.filter (· ≠ [])⟩

/-! ### Stack effects -/

/-- The reply buffer a Lua function's outcome leads to. -/
def answer : Outcome ν → Except Stop Block
  | .returned values => retdataOf num (values.headD .nil)
  | .raised _ => .error .panicked

/-- **Calling, reading the result and replying** takes the function and its arguments off the stack
again. -/
theorem callLuaFunc_answer (countargs : Nat) (outcome : Outcome ν) {pushed stack : Stack ν}
    (arguments : pop pushed (countargs + 1) = stack) (reply : Block → Option Bytes) :
    (do
      let stack ← callLuaFunc countargs 1 outcome pushed
      let (retdata, stack) ← getRetData num stack
      .ok ⟨stack, reply retdata⟩) =
      (answer num outcome).map fun retdata => (⟨stack, reply retdata⟩ : Answer ν) := by
  cases outcome with
  | returned values =>
    have results : callLuaFunc countargs 1 (.returned values) pushed =
        .ok (push stack (values.headD .nil)) := by
      simp only [callLuaFunc, pcall, adjust_one, arguments]
      rfl
    have read : getRetData num (push stack (values.headD .nil)) =
        (retdataOf num (values.headD .nil)).bind fun retdata => .ok (retdata, stack) := rfl
    rw [results, answer]
    show (getRetData num (push stack (values.headD .nil))).bind _ = _
    rw [read]
    cases retdataOf num (values.headD .nil) with
    | ok retdata => rfl
    | error stop => rfl
  | raised message => rfl

/-- **`event1` leaves the stack as it found it**, whenever it returns. -/
theorem event1_eq (world : World ν) (call : Call) (stack : Stack ν) :
    event1 num world call stack =
      (answer num world.outcome).map fun retdata => ⟨stack, retdata.cString?⟩ := by
  rw [event1]
  exact callLuaFunc_answer num 4 world.outcome rfl Block.cString?

/-- **So does `notFound`.** -/
theorem notFound_eq (world : World ν) (call : Call) (op : Bytes) (stack : Stack ν) :
    notFound num world call op stack =
      (answer num world.outcome).map fun retdata =>
        ⟨stack, retdata.cString?.filter (· ≠ [])⟩ := by
  rw [notFound]
  exact callLuaFunc_answer num 5 world.outcome rfl fun retdata => retdata.cString?.filter (· ≠ [])

/-! ### Outcomes that lead to a reply -/

/-- A returned value that `retdata` can take: nil, a number, a string that denotes one, or a string
of at most 511 bytes before its first NUL. -/
def HarmlessValue : Value ν → Prop
  | .nil => True
  | .number _ => True
  | .string text => (num.str2number text).isSome ∨ (cstr text).strlen ≤ 511
  | .boolean _ => False
  | .object _ => False

/-- The Lua function returns, and what it returns is harmless. -/
def Harmless : Outcome ν → Prop
  | .returned values => HarmlessValue num (values.headD .nil)
  | .raised _ => False

theorem retdata_inBounds_iff (text : Bytes) :
    (((Block.malloc 512).write 0 [0]).write 0 (text ++ [0])).InBounds ↔ text.length ≤ 511 := by
  have first : ((Block.malloc 512).write 0 [0]).InBounds :=
    Block.inBounds_write.mpr ⟨Block.inBounds_malloc 512, by decide⟩
  rw [Block.inBounds_write, Block.write_size, Block.malloc_size, List.length_append,
    List.length_singleton]
  exact ⟨fun fits => by omega, fun short => ⟨first, by omega⟩⟩

/-- A text that fits `retdata` is formatted into it. -/
theorem sprintfRetdata_ok {text : Bytes} (fits : text.length ≤ 511) :
    sprintfRetdata ((Block.malloc 512).write 0 [0]) text =
      .ok (((Block.malloc 512).write 0 [0]).write 0 (text ++ [0])) :=
  if_pos ((retdata_inBounds_iff text).mpr fits)

/-- One that does not is undefined. -/
theorem sprintfRetdata_undefined {text : Bytes} (long : ¬ text.length ≤ 511) :
    sprintfRetdata ((Block.malloc 512).write 0 [0]) text = .error .undefined :=
  if_neg (mt (retdata_inBounds_iff text).mp long)

theorem sprintfRetdata_isOk (text : Bytes) :
    (sprintfRetdata ((Block.malloc 512).write 0 [0]) text).isOk = true ↔ text.length ≤ 511 := by
  by_cases fits : text.length ≤ 511
  · rw [sprintfRetdata_ok fits]
    exact ⟨fun _ => fits, fun _ => rfl⟩
  · rw [sprintfRetdata_undefined fits]
    exact ⟨nofun, fun short => absurd short fits⟩

theorem decimalInt_fits (n : ν) : (decimalInt (num.toInt n).toInt).length ≤ 511 :=
  le_trans (decimalInt_length_le _) (by decide)

theorem retdataOf_isOk_iff (value : Value ν) :
    (retdataOf num value).isOk = true ↔ HarmlessValue num value := by
  cases value with
  | nil => simp [retdataOf, Value.isNil, HarmlessValue, Except.isOk, Except.toBool]
  | boolean b =>
    simp [retdataOf, Value.isNil, Value.toNumber, Value.toLString, HarmlessValue, Except.isOk,
      Except.toBool]
  | number n =>
    simp only [retdataOf, Value.isNil, Value.toNumber, HarmlessValue, iff_true]
    exact (sprintfRetdata_isOk _).mpr (decimalInt_fits num n)
  | string text =>
    cases denotes : num.str2number text with
    | some n =>
      simp only [retdataOf, Value.isNil, Value.toNumber, denotes, HarmlessValue, Option.isSome_some,
        true_or, iff_true]
      exact (sprintfRetdata_isOk _).mpr (decimalInt_fits num n)
    | none =>
      simp only [retdataOf, Value.isNil, Value.toNumber, denotes, Value.toLString, HarmlessValue,
        Option.isSome_none, Bool.false_eq_true, false_or]
      exact sprintfRetdata_isOk _
  | object identity =>
    simp [retdataOf, Value.isNil, Value.toNumber, Value.toLString, HarmlessValue, Except.isOk,
      Except.toBool]

/-- **A handler returns exactly for the harmless outcomes.** -/
theorem answer_isOk_iff (outcome : Outcome ν) :
    (answer num outcome).isOk = true ↔ Harmless num outcome := by
  cases outcome with
  | returned values => exact retdataOf_isOk_iff num _
  | raised message => simp [answer, Harmless, Except.isOk, Except.toBool]

end Handlers

end Bacteria.Serv
