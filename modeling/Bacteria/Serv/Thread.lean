/-
**The loop of `serv_thread`.**

One event of an `epoll_wait` batch at a time: a datagram on the UDP socket, a connection on the
listening socket, or a readable TCP descriptor.

* `LoopState` — the variables that live across turns, the open descriptors, and whether the loop still
  runs (`Mode`).
* `step` — the body of the loop; `dispatched` says whether an event reaches the opcode table, and with
  what buffer; `step_dispatched` and `step_idle` are the two things a readable descriptor can do.
* `step_readable_cases` — the same with the states it leaves.
-/

import Bacteria.Serv.Handlers
import Bacteria.Serv.Registry

namespace Bacteria.Serv

open Clib Lua

/-- `SBUF`. -/
def sbuf : Nat := 1024

/-- `opcode::ignorebyte`. -/
def ignorebyte : Byte := 0x0E

/-- The handlers the dispatcher can run. -/
inductive Handler where
  | event0
  | event1
  | notFound
deriving DecidableEq

/-- The table `opcodes`. -/
def opcodes : List (Bytes × Handler) :=
  [([0x01, ignorebyte, ignorebyte, 0x01], .event0), (ascii "abcd", .event1)]

/-- The search through `opcodes`, and `notFound` when no entry has the four bytes. -/
def selectHandler (data : Bytes) : Handler :=
  match opcodes.find? (fun op => op.1 = data) with
  | some op => op.2
  | none => .notFound

/-- Whether `serv_thread` still waits for events, and what has happened to it when not. -/
inductive Mode where
  | waiting
  | returned
  | panicked
  | undefined
deriving DecidableEq

/-- The state of the loop; `peers` are the open TCP descriptors with the peer accepted on each, `sent`
is what the handlers sent, in order. -/
structure LoopState (ν : Type) where
  clientAddr : SockAddrIn
  users : List User
  peers : Nat → Option SockAddrIn
  stack : Stack ν
  mode : Mode
  sent : List (Nat × Bytes)

/-- What `recv` returns: -1, or at most `sizeof(buf)` bytes; none of them when the peer closed. -/
inductive Received where
  | failed
  | data (bytes : Bytes) (fits : bytes.length ≤ sbuf)

/-- A readable TCP descriptor: what `recv` returns, the bytes that lie behind `buf` on the stack, and
Lua as the event finds it. -/
structure Input (ν : Type) where
  received : Received
  spill : Bytes
  world : World ν

/-- One event. -/
inductive Event (ν : Type) where
  | datagram (d : Datagram)
  | accepted (fd : Nat) (peer : SockAddrIn)
  | readable (fd : Nat) (input : Input ν)

/-- The bytes from the start of `buf` on after `bzero` and `recv`, `none` when `recv` returned 0. The
result -1 is stored in an unsigned variable and passes for a count. -/
def Input.buf {ν : Type} (input : Input ν) : Option Bytes :=
  match input.received with
  | .failed => some (List.replicate sbuf 0 ++ input.spill)
  | .data [] _ => none
  | .data (b :: bytes) _ =>
    some (b :: bytes ++ List.replicate (sbuf - (b :: bytes).length) 0 ++ input.spill)

/-- The Lua global `server_inited` as a boolean. -/
def World.servInited {ν : Type} (world : World ν) : Bool :=
  (world.globals (ascii "server_inited")).toBoolean

/-- The server is not told to stop. -/
def Event.Inited {ν : Type} : Event ν → Prop
  | .readable _ input => input.world.servInited = true
  | _ => True

section Loop

variable {ν : Type} (num : Numerals ν)

/-- The loop before its first turn; `clientAddr` is whatever the uninitialised variable holds. -/
def LoopState.start (clientAddr : SockAddrIn) (stack : Stack ν) : LoopState ν where
  clientAddr
  users := []
  peers _ := none
  stack
  mode := .waiting
  sent := []

/-- What a handler is passed on descriptor `fd`: `ip` and `port` are computed from `client_addr`. -/
def LoopState.call (s : LoopState ν) (fd : Nat) (buf : Bytes) : Call where
  sock := fd
  uIp := ⟨inetNtoa s.clientAddr.sAddr, notMem_inetNtoa (by decide) (by decide) _⟩
  uPort := htons s.clientAddr.sinPort
  buf

/-- Running a handler. -/
def runHandler (handler : Handler) (world : World ν) (call : Call) (stack : Stack ν) :
    Except Stop (Answer ν) :=
  match handler with
  | .event0 => event0 stack
  | .event1 => event1 num world call stack
  | .notFound => notFound num world call (call.buf.take 4) stack

/-- The dispatch of a received message. -/
def dispatch (s : LoopState ν) (fd : Nat) (buf : Bytes) (world : World ν) : LoopState ν :=
  match runHandler num (selectHandler (buf.take 4)) world (s.call fd buf) s.stack with
  | .ok answer =>
    { s with stack := answer.stack, sent := s.sent ++ answer.sent.toList.map fun text => (fd, text) }
  | .error .panicked => { s with mode := .panicked }
  | .error .undefined => { s with mode := .undefined }

/-- The branch for a TCP descriptor. -/
def clientBranch (s : LoopState ν) (fd : Nat) (input : Input ν) : LoopState ν :=
  match input.buf with
  | none => { s with peers := fun other => if other = fd then none else s.peers other }
  | some buf =>
    let stack := push s.stack (input.world.globals (ascii "server_inited"))
    let servInited := (top stack).toBoolean
    let stack := pop stack 1
    if servInited then dispatch num { s with stack } fd buf input.world
    else { s with stack, mode := .returned }

/-- **The body of the loop.** Nothing happens once the loop has ended, nor on a descriptor that is
not open. -/
def step (s : LoopState ν) (event : Event ν) : LoopState ν :=
  match s.mode with
  | .waiting =>
    match event with
    | .datagram d => { s with clientAddr := d.sender, users := (receive s.users d).users }
    | .accepted fd peer =>
      { s with
        clientAddr := peer
        peers := fun other => if other = fd then some peer else s.peers other }
    | .readable fd input => if (s.peers fd).isSome then clientBranch num s fd input else s
  | _ => s

/-- The descriptor, the buffer and Lua, for an event that reaches the opcode table. -/
def dispatched (s : LoopState ν) (event : Event ν) : Option (Nat × Bytes × World ν) :=
  match s.mode, event with
  | .waiting, .readable fd input =>
    if (s.peers fd).isSome ∧ input.world.servInited then
      input.buf.map fun buf => (fd, buf, input.world)
    else none
  | _, _ => none

/-- The handler call an event leads to. -/
def handlerCall (s : LoopState ν) (event : Event ν) : Option Call :=
  (dispatched s event).map fun found => s.call found.1 found.2.1

/-! ### What a step does -/

variable {num}

theorem step_stopped {s : LoopState ν} (stopped : s.mode ≠ .waiting) (event : Event ν) :
    step num s event = s := by
  unfold step
  cases mode : s.mode with
  | waiting => exact absurd mode stopped
  | returned => rfl
  | panicked => rfl
  | undefined => rfl

/-- The look at `server_inited` leaves the stack as it was. -/
theorem clientBranch_some {s : LoopState ν} (fd : Nat) {input : Input ν} {buf : Bytes}
    (filled : input.buf = some buf) :
    clientBranch num s fd input =
      if input.world.servInited then dispatch num s fd buf input.world
      else { s with mode := .returned } := by
  unfold clientBranch
  rw [filled]
  rfl

theorem step_readable {s : LoopState ν} (waiting : s.mode = .waiting) {fd : Nat}
    (isOpen : (s.peers fd).isSome = true) (input : Input ν) :
    step num s (.readable fd input) = clientBranch num s fd input := by
  unfold step
  rw [waiting]
  exact if_pos isOpen

/-- **What an event on a TCP descriptor can do**: nothing, close it, or get to the dispatch, unless the
server was told to stop. -/
theorem step_readable_cases (num : Numerals ν) (s : LoopState ν) (fd : Nat) (input : Input ν) :
    (step num s (.readable fd input) = s ∧ (s.mode = .waiting → s.peers fd = none)) ∨
      (input.buf = none ∧ step num s (.readable fd input) =
        { s with peers := fun other => if other = fd then none else s.peers other }) ∨
      ∃ buf, input.buf = some buf ∧
        (step num s (.readable fd input) = dispatch num s fd buf input.world ∨
          step num s (.readable fd input) = { s with mode := .returned }) := by
  by_cases waiting : s.mode = .waiting
  · by_cases isOpen : (s.peers fd).isSome = true
    · rw [step_readable waiting isOpen]
      cases filled : input.buf with
      | none =>
        refine Or.inr (Or.inl ⟨rfl, ?_⟩)
        simp only [clientBranch, filled]
      | some buf =>
        rw [clientBranch_some fd filled]
        refine Or.inr (Or.inr ⟨buf, rfl, ?_⟩)
        split
        · exact Or.inl rfl
        · exact Or.inr rfl
    · exact Or.inl ⟨by simp [step, waiting, isOpen], fun _ => Option.not_isSome_iff_eq_none.mp isOpen⟩
  · exact Or.inl ⟨step_stopped waiting _, fun waits => absurd waits waiting⟩

/-- Dispatching touches neither the address nor the descriptors. -/
theorem dispatch_frame (num : Numerals ν) (s : LoopState ν) (fd : Nat) (buf : Bytes)
    (world : World ν) :
    (dispatch num s fd buf world).clientAddr = s.clientAddr ∧
      (dispatch num s fd buf world).peers = s.peers := by
  unfold dispatch
  split <;> exact ⟨rfl, rfl⟩

theorem step_peers_of_datagram (s : LoopState ν) (d : Datagram) :
    (step num s (.datagram d)).peers = s.peers := by
  unfold step
  split
  · rfl
  · rfl

/-- A descriptor stays open when something is received on it. -/
theorem step_peers_of_received (s : LoopState ν) (fd : Nat) {input : Input ν}
    (filled : input.buf.isNone = false) : (step num s (.readable fd input)).peers = s.peers := by
  rcases step_readable_cases num s fd input with
    ⟨same, _⟩ | ⟨nothing, _⟩ | ⟨buf, _, dispatches | stops⟩
  · rw [same]
  · rw [nothing] at filled
    cases filled
  · rw [dispatches, (dispatch_frame num s fd buf input.world).2]
  · rw [stops]

/-- It is closed when the peer has closed. -/
theorem step_peers_of_closed {s : LoopState ν} (waiting : s.mode = .waiting) (fd : Nat)
    {input : Input ν} (closed : input.buf.isNone = true) (other : Nat) :
    (step num s (.readable fd input)).peers other = if other = fd then none else s.peers other := by
  rcases step_readable_cases num s fd input with ⟨same, unused⟩ | ⟨_, closes⟩ | ⟨buf, filled, _⟩
  · rw [same]
    split
    · rename_i this
      rw [this, unused waiting]
    · rfl
  · rw [closes]
  · rw [filled] at closed
    cases closed

/-- **An event that reaches the opcode table runs the selected handler.** -/
theorem step_dispatched (num : Numerals ν) {s : LoopState ν} {event : Event ν} {fd : Nat}
    {buf : Bytes} {world : World ν} (found : dispatched s event = some (fd, buf, world)) :
    s.mode = .waiting ∧ (s.peers fd).isSome = true ∧
      step num s event = dispatch num s fd buf world := by
  unfold dispatched at found
  split at found
  · rename_i fd' input waiting
    split at found
    · rename_i reaches
      obtain ⟨isOpen, inited⟩ := reaches
      obtain ⟨buf', filled, same⟩ := Option.map_eq_some_iff.mp found
      obtain ⟨rfl, rfl, rfl⟩ : fd' = fd ∧ buf' = buf ∧ input.world = world := by simpa using same
      refine ⟨waiting, isOpen, ?_⟩
      rw [step_readable waiting isOpen, clientBranch_some fd' filled, if_pos inited]
    · cases found
  · cases found

/-- **Any other event leaves the Lua stack alone**, and the loop waits on unless the server was told to
stop. -/
theorem step_idle (num : Numerals ν) {s : LoopState ν} {event : Event ν}
    (idle : dispatched s event = none) :
    (step num s event).stack = s.stack ∧ (event.Inited → (step num s event).mode = s.mode) := by
  by_cases waiting : s.mode = .waiting
  · cases event with
    | datagram d => simp [step, waiting]
    | accepted fd peer => simp [step, waiting]
    | readable fd input =>
      by_cases isOpen : (s.peers fd).isSome = true
      · rw [step_readable waiting isOpen]
        cases filled : input.buf with
        | none => simp [clientBranch, filled]
        | some buf =>
          have stops : ¬ input.world.servInited = true := by
            simpa [dispatched, waiting, isOpen, filled] using idle
          rw [clientBranch_some fd filled, if_neg stops]
          exact ⟨rfl, fun inited => absurd inited stops⟩
      · simp [step, waiting, isOpen]
  · rw [step_stopped waiting]
    exact ⟨rfl, fun _ => rfl⟩

end Loop

end Bacteria.Serv
