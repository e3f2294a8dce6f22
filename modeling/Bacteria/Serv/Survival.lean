/-
**When a TCP message lets the loop go on.**

`luaL_error` is called outside any protected call, and `retdata` has 512 bytes. The loop gets back to
`epoll_wait`, with the Lua stack as it was, exactly when no Lua handler it runs raises an error or
returns a value that does not fit.

* `BackInLoop` — after an event the loop waits and the stack is as high as before.
* `HandlerHarmless` — a condition on the event: the handler it selects does not call Lua, or its outcome
  is harmless.
* `dispatch_back_iff`, `step_back_iff` — one message, one event; `backInLoop_iff` — every run.
-/

import Bacteria.Serv.ToldPeer

namespace Bacteria.Serv

open Clib Lua

section Survival

variable {ν : Type} (num : Numerals ν)

/-- After the event the loop waits again, and the Lua stack is as high as before. -/
def BackInLoop (s : LoopState ν) (event : Event ν) : Prop :=
  (step num s event).mode = .waiting ∧ (step num s event).stack.length = s.stack.length

/-- If the event is dispatched, it selects `event0` or a Lua handler with a harmless outcome. -/
def HandlerHarmless (s : LoopState ν) (event : Event ν) : Prop :=
  ∀ fd buf world, dispatched s event = some (fd, buf, world) →
    selectHandler (buf.take 4) = .event0 ∨ Harmless num world.outcome

variable {num}

/-- Both Lua handlers leave the stack as it was, with some reply made of `retdata`. -/
theorem runHandler_eq (num : Numerals ν) {handler : Handler} (lua : handler ≠ .event0)
    (world : World ν) (call : Call) (stack : Stack ν) :
    ∃ reply : Block → Option Bytes, runHandler num handler world call stack =
      (answer num world.outcome).map fun retdata => ⟨stack, reply retdata⟩ := by
  cases handler with
  | event0 => exact absurd rfl lua
  | event1 => exact ⟨_, event1_eq num world call stack⟩
  | notFound => exact ⟨_, notFound_eq num world call _ stack⟩

/-- **A handler returns exactly when its outcome allows it**, and then the stack is what it was. -/
theorem runHandler_cases (num : Numerals ν) (handler : Handler) (world : World ν) (call : Call)
    (stack : Stack ν) :
    (∃ sent, runHandler num handler world call stack = .ok ⟨stack, sent⟩ ∧
      (handler = .event0 ∨ Harmless num world.outcome)) ∨
    (∃ stop, runHandler num handler world call stack = .error stop ∧
      ¬ (handler = .event0 ∨ Harmless num world.outcome)) := by
  by_cases isEvent0 : handler = .event0
  · subst isEvent0
    exact Or.inl ⟨_, rfl, Or.inl rfl⟩
  obtain ⟨reply, runs⟩ := runHandler_eq num isEvent0 world call stack
  have answered := answer_isOk_iff num world.outcome
  cases result : answer num world.outcome with
  | ok retdata =>
    have harmless : Harmless num world.outcome := answered.mp (by rw [result]; rfl)
    exact Or.inl ⟨reply retdata, by rw [runs, result]; rfl, Or.inr harmless⟩
  | error stop =>
    have harmful : ¬ Harmless num world.outcome := by
      intro harmless
      have isOk := answered.mpr harmless
      rw [result] at isOk
      cases isOk
    exact Or.inr ⟨stop, by rw [runs, result]; rfl, fun either => either.elim isEvent0 harmful⟩

/-- **One message.** -/
theorem dispatch_back_iff {s : LoopState ν} (waiting : s.mode = .waiting) (fd : Nat) (buf : Bytes)
    (world : World ν) :
    ((dispatch num s fd buf world).mode = .waiting ∧
      (dispatch num s fd buf world).stack.length = s.stack.length) ↔
    (selectHandler (buf.take 4) = .event0 ∨ Harmless num world.outcome) := by
  rcases runHandler_cases num (selectHandler (buf.take 4)) world (s.call fd buf) s.stack with
    ⟨sent, returns, harmless⟩ | ⟨stop, stops, harmful⟩
  · have result : dispatch num s fd buf world =
        { s with sent := s.sent ++ sent.toList.map fun text => (fd, text) } := by
      rw [dispatch, returns]
    rw [result]
    exact ⟨fun _ => harmless, fun _ => ⟨waiting, rfl⟩⟩
  · have ended : (dispatch num s fd buf world).mode ≠ .waiting := by
      rw [dispatch, stops]
      cases stop <;> exact nofun
    exact ⟨fun back => absurd back.1 ended, fun harmless => absurd harmless harmful⟩

/-- **One event** of a waiting loop. -/
theorem step_back_iff {s : LoopState ν} (waiting : s.mode = .waiting) {event : Event ν}
    (inited : event.Inited) : BackInLoop num s event ↔ HandlerHarmless num s event := by
  unfold BackInLoop HandlerHarmless
  cases reaches : dispatched s event with
  | none =>
    obtain ⟨stack, mode⟩ := step_idle num reaches
    rw [stack, mode inited]
    refine ⟨fun _ fd buf world found => ?_, fun _ => ⟨waiting, rfl⟩⟩
    cases found
  | some found =>
    obtain ⟨fd, buf, world⟩ := found
    rw [(step_dispatched num reaches).2.2, dispatch_back_iff waiting]
    constructor
    · intro harmless fd' buf' world' same
      obtain ⟨rfl, rfl, rfl⟩ : fd = fd' ∧ buf = buf' ∧ world = world' := by simpa using same
      exact harmless
    · exact fun harmless => harmless fd buf world rfl

/-- **When the server survives its clients**: as long as it is not told to stop, the loop gets back to
`epoll_wait` after every event of a run exactly when every Lua handler selected in the run has a
harmless outcome. -/
theorem backInLoop_iff (num : Numerals ν) (clientAddr : SockAddrIn) (stack : Stack ν)
    (events : List (Event ν)) (inited : ∀ event ∈ events, event.Inited) :
    Runs.EveryStep (step num) (BackInLoop num) (LoopState.start clientAddr stack) events ↔
      Runs.EveryStep (step num) (HandlerHarmless num) (LoopState.start clientAddr stack) events :=
  Runs.everyStep_congr (fun s => s.mode = .waiting) (fun _ _ _ back => back.1)
    (fun event member _ waiting => step_back_iff waiting (inited event member)) rfl

/-- A client connects and sends `abcd`; `event1` returns nothing. -/
def quietEvents : List (Event Int) :=
  [.accepted 5 firstClient, .readable 5 abcdArrives]

theorem backInLoop_sample :
    Runs.EveryStep (step .integers) (BackInLoop .integers) (LoopState.start firstClient [])
      quietEvents := by
  have inited : ∀ event ∈ quietEvents, event.Inited := by
    intro event member
    rcases List.mem_pair.mp member with rfl | rfl
    · trivial
    · rfl
  refine (backInLoop_iff .integers firstClient [] quietEvents inited).mpr ⟨?_, ?_, trivial⟩
  · intro fd buf world found
    cases found
  · intro fd buf world found
    obtain rfl : quietWorld = world := (Prod.mk.inj (Prod.mk.inj (Option.some.inj found)).2).2
    exact Or.inr trivial

/-- Lua with `server_inited` set, in which `undefined_event` raises an error, as its `pizd` entry does
on a peer that closes before it sent its data: `string.fromhex` is given nil. -/
def raisingWorld : World Int where
  globals name := if name = ascii "server_inited" then .boolean true else .object 0
  outcome := .raised (.string (ascii "attempt to index local 'str' (a nil value)"))

/-- A client connects and sends `pizd`. -/
def raisingEvents : List (Event Int) :=
  [.accepted 5 firstClient, .readable 5 ⟨.data (ascii "pizd") (by decide), [], raisingWorld⟩]

/-- **One message ends the server**: the error leaves the handler through the panic function. -/
theorem raisingEvents_panic :
    (∀ event ∈ raisingEvents, event.Inited) ∧
      (Runs.run (step .integers) (LoopState.start firstClient []) raisingEvents).mode = .panicked ∧
      ¬ Runs.EveryStep (step .integers) (BackInLoop .integers) (LoopState.start firstClient [])
        raisingEvents := by
  have ended : (Runs.run (step .integers) (LoopState.start firstClient []) raisingEvents).mode =
      .panicked := rfl
  refine ⟨fun event member => ?_, ended, ?_⟩
  · rcases List.mem_pair.mp member with rfl | rfl
    · trivial
    · rfl
  · rintro ⟨_, ⟨waits, _⟩, _⟩
    exact absurd (waits.symm.trans ended) (by decide)

end Survival

end Bacteria.Serv
