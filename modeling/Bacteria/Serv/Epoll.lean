/-
**What waits on the sockets of `serv_thread`.**

The UDP socket and the accepted sockets are registered with `EPOLLET`. The loop receives one datagram
for an event on the former, and at most `sizeof(buf)` bytes for one on the latter.

* `Server` — the loop, what its sockets hold, and the events of the interest list; `handleEvent` is one
  turn of the loop over a batch; `serve` takes an arrival, an `epoll_wait` or a turn.
* `Backed` — each event of the UDP socket has its datagram: `recvfrom` never finds the queue empty.
* `serve_loop`, `run_loop` — the runs of the server are runs of the loop.
-/

import Bacteria.Lib.EdgeTriggered
import Bacteria.Lib.Runs
import Bacteria.Serv.Thread
import Mathlib.Logic.Function.Basic

namespace Bacteria.Serv

open Clib Lua EdgeTriggered

/-- `MAX_LISTEN`, the size of `events`. -/
def maxListen : Nat := 100

/-- What `events[n].data.fd` can be: `main_descriptor_udp`, `main_descriptor` or an accepted socket. -/
inductive Source where
  | udp
  | listening
  | client (fd : Nat)
deriving DecidableEq

/-- A connection that waits for `accept`, with what has arrived on it so far. -/
structure Connection where
  peer : SockAddrIn
  unread : Bytes
  hungUp : Bool

/-- `serv_thread` and its sockets: the datagrams queued on the UDP socket, the connections queued on the
listening one, and for each accepted socket the unread bytes and whether the peer has closed. -/
structure Server (ν : Type) where
  loop : LoopState ν
  datagrams : List (SockAddrIn × Bytes)
  backlog : List Connection
  unread : Nat → Bytes
  hungUp : Nat → Bool
  watch : Watch Source

/-- What one turn meets: the descriptor `accept` returns, the two readings of the clock, and what a
readable descriptor finds behind `buf` and in Lua. -/
structure Turn (ν : Type) where
  fd : Nat
  timenow : Int
  pingnow : Int
  spill : Bytes
  world : World ν

/-- What can happen next: a datagram or a connection arrives, bytes arrive on an accepted socket or its
peer closes, `epoll_wait` passes over an event whose data has been read, it returns a batch, or the loop
handles the first event of the batch. -/
inductive Action (ν : Type) where
  | datagram (sender : SockAddrIn) (text : Bytes)
  | connect (connection : Connection)
  | bytes (fd : Nat) (text : Bytes)
  | hangUp (fd : Nat)
  | lapse (source : Source)
  | epollWait (reported : List Source) (once : reported.Nodup)
  | handle (turn : Turn ν)

namespace Server

section State

variable {ν : Type}

/-- Before the first turn. -/
def start (clientAddr : SockAddrIn) (stack : Stack ν) : Server ν where
  loop := LoopState.start clientAddr stack
  datagrams := []
  backlog := []
  unread _ := []
  hungUp _ := false
  watch := Watch.start

/-- The socket is accepted and still open. -/
def Open (s : Server ν) (fd : Nat) : Prop := (s.loop.peers fd).isSome = true

instance (s : Server ν) (fd : Nat) : Decidable (s.Open fd) := inferInstanceAs (Decidable (_ = _))

/-- There is something to receive. -/
def Readable (s : Server ν) : Source → Prop
  | .udp => s.datagrams ≠ []
  | .listening => s.backlog ≠ []
  | .client fd => s.unread fd ≠ [] ∨ s.hungUp fd = true

/-- `epoll_wait` can report it: the listening socket, which is registered without `EPOLLET`, as long as
a connection waits, the others when an event is pending. -/
def Ready (s : Server ν) : Source → Prop
  | .listening => s.backlog ≠ []
  | source => source ∈ s.watch.pending

instance (s : Server ν) : DecidablePred s.Readable
  | .udp => inferInstanceAs (Decidable (s.datagrams ≠ []))
  | .listening => decidable_of_iff (¬ s.backlog.isEmpty) (by simp [Readable])
  | .client fd => inferInstanceAs (Decidable (s.unread fd ≠ [] ∨ s.hungUp fd = true))

instance (s : Server ν) : DecidablePred s.Ready
  | .listening => decidable_of_iff (¬ s.backlog.isEmpty) (by simp [Ready])
  | .udp => inferInstanceAs (Decidable (.udp ∈ s.watch.pending))
  | .client fd => inferInstanceAs (Decidable (.client fd ∈ s.watch.pending))

/-- What can happen in this state. `epoll_wait` is called between two batches, and `accept` returns a
descriptor that is not in use. -/
def Enabled (s : Server ν) : Action ν → Prop
  | .datagram _ _ => True
  | .connect _ => True
  | .bytes fd text => s.Open fd ∧ s.hungUp fd = false ∧ text ≠ []
  | .hangUp fd => s.Open fd ∧ s.hungUp fd = false
  | .lapse source => ¬ s.Readable source
  | .epollWait reported _ =>
    s.loop.mode = .waiting ∧ s.watch.batch = [] ∧ reported.length ≤ maxListen ∧
      ∀ source ∈ reported, s.Ready source
  | .handle turn =>
    s.loop.mode = .waiting ∧ s.watch.batch ≠ [] ∧
      (s.watch.batch.head? = some .listening → ¬ s.Open turn.fd)

instance (s : Server ν) : DecidablePred s.Enabled
  | .datagram _ _ => inferInstanceAs (Decidable True)
  | .connect _ => inferInstanceAs (Decidable True)
  | .bytes _ _ => inferInstanceAs (Decidable (_ ∧ _ ∧ _))
  | .hangUp _ => inferInstanceAs (Decidable (_ ∧ _))
  | .lapse _ => inferInstanceAs (Decidable (¬ _))
  | .epollWait _ _ => inferInstanceAs (Decidable (_ ∧ _ ∧ _ ∧ _))
  | .handle _ => inferInstanceAs (Decidable (_ ∧ _ ∧ (_ → _)))

/-- What `recv` returns on an accepted socket, which does not block. -/
def received (s : Server ν) (fd : Nat) : Received :=
  match s.unread fd with
  | [] => if s.hungUp fd then .data [] (Nat.zero_le sbuf) else .failed
  | text => .data (text.take sbuf) (List.length_take_le sbuf text)

/-- What a turn on an accepted socket gets. -/
def input (s : Server ν) (fd : Nat) (turn : Turn ν) : Input ν where
  received := s.received fd
  spill := turn.spill
  world := turn.world

end State

section Turns

variable {ν : Type} (num : Numerals ν)

/-- The branch for `main_descriptor_udp`: one `recvfrom`. Its result -1 would become an index into
`buf_udp`. -/
def udpTurn (s : Server ν) (turn : Turn ν) : Server ν :=
  match s.datagrams with
  | [] => { s with loop := { s.loop with mode := .undefined } }
  | (sender, text) :: datagrams =>
    { s with
      datagrams
      loop := step num s.loop (.datagram ⟨sender, text.take sbuf, turn.timenow, turn.pingnow⟩) }

/-- The branch for `main_descriptor`: one `accept`, after which `EPOLL_CTL_ADD` finds out whether there
is something to receive already. A failing `accept` would end the program. -/
def acceptTurn (s : Server ν) (turn : Turn ν) : Server ν :=
  match s.backlog with
  | [] => { s with loop := { s.loop with mode := .returned } }
  | connection :: backlog =>
    { s with
      backlog
      unread := Function.update s.unread turn.fd connection.unread
      hungUp := Function.update s.hungUp turn.fd connection.hungUp
      watch :=
        if connection.unread ≠ [] ∨ connection.hungUp then s.watch.raise (.client turn.fd)
        else s.watch
      loop := step num s.loop (.accepted turn.fd connection.peer) }

/-- The branch for an accepted socket: one `recv`, and `EPOLL_CTL_DEL` when it returned 0. -/
def clientTurn (s : Server ν) (fd : Nat) (turn : Turn ν) : Server ν :=
  { s with
    unread := Function.update s.unread fd ((s.unread fd).drop sbuf)
    watch := if (s.input fd turn).buf.isNone then s.watch.forget (.client fd) else s.watch
    loop := step num s.loop (.readable fd (s.input fd turn)) }

/-- One turn of `for (int n = 0; n < nfds; ++n)`. -/
def handleEvent (s : Server ν) (turn : Turn ν) : Source → Server ν
  | .udp => udpTurn num s turn
  | .listening => acceptTurn num s turn
  | .client fd => clientTurn num s fd turn

/-- The first event of the batch is taken up. -/
def advance (s : Server ν) : Server ν := { s with watch := s.watch.next }

/-- What an action does. -/
def effect (s : Server ν) : Action ν → Server ν
  | .datagram sender text =>
    { s with datagrams := s.datagrams ++ [(sender, text)], watch := s.watch.raise .udp }
  | .connect connection => { s with backlog := s.backlog ++ [connection] }
  | .bytes fd text =>
    { s with
      unread := Function.update s.unread fd (s.unread fd ++ text)
      watch := s.watch.raise (.client fd) }
  | .hangUp fd =>
    { s with
      hungUp := Function.update s.hungUp fd true
      watch := s.watch.raise (.client fd) }
  | .lapse source => { s with watch := s.watch.forget source }
  | .epollWait reported once => { s with watch := s.watch.report reported once }
  | .handle turn =>
    match s.watch.batch with
    | [] => s
    | source :: _ => handleEvent num s.advance turn source

/-- **One action**; nothing happens that cannot. -/
def serve (s : Server ν) (action : Action ν) : Server ν :=
  if s.Enabled action then effect num s action else s

theorem udpTurn_watch (s : Server ν) (turn : Turn ν) : (udpTurn num s turn).watch = s.watch := by
  unfold udpTurn
  split
  · rfl
  · rfl

theorem acceptTurn_watch (s : Server ν) (turn : Turn ν) :
    (acceptTurn num s turn).watch = s.watch ∨
      (acceptTurn num s turn).watch = s.watch.raise (.client turn.fd) := by
  unfold acceptTurn
  split
  · exact Or.inl rfl
  · split
    · exact Or.inr rfl
    · exact Or.inl rfl

variable {num}

theorem serve_of_enabled {s : Server ν} {action : Action ν} (enabled : s.Enabled action) :
    serve num s action = effect num s action := if_pos enabled

theorem effect_handle {s : Server ν} {source : Source} {batch : List Source}
    (head : s.watch.batch = source :: batch) (turn : Turn ν) :
    effect num s (.handle turn) = handleEvent num s.advance turn source := by
  simp only [effect, head]

theorem serve_of_not_enabled {s : Server ν} {action : Action ν} (disabled : ¬ s.Enabled action) :
    serve num s action = s := if_neg disabled

/-- What `recv` gets, and whether it gets nothing because the peer has closed. -/
theorem input_closed_iff (s : Server ν) (fd : Nat) (turn : Turn ν) :
    (s.input fd turn).buf.isNone = true ↔ s.unread fd = [] ∧ s.hungUp fd = true := by
  have full : sbuf = 1023 + 1 := rfl
  cases text : s.unread fd with
  | nil =>
    cases closed : s.hungUp fd with
    | false => simp [input, received, Input.buf, text, closed]
    | true => simp [input, received, Input.buf, text, closed]
  | cons b text' => simp [input, received, Input.buf, text, full, List.take_succ_cons]

end Turns

/-! ### The runs of the loop -/

section Loop

variable {ν : Type} (num : Numerals ν)

/-- Each event of the UDP socket has its datagram, and a reported connection is still there. -/
structure Backed (s : Server ν) : Prop where
  udp : events s.watch .udp ≤ s.datagrams.length
  listening : .listening ∈ s.watch.batch → s.backlog ≠ []

/-- The event of the loop that an action hands it. -/
def handed (s : Server ν) : Action ν → Option (Event ν)
  | .handle turn =>
    match s.watch.batch with
    | [] => none
    | .udp :: _ => s.datagrams.head?.map fun queued =>
      .datagram ⟨queued.1, queued.2.take sbuf, turn.timenow, turn.pingnow⟩
    | .listening :: _ => s.backlog.head?.map fun connection => .accepted turn.fd connection.peer
    | .client fd :: _ => some (.readable fd (s.input fd turn))
  | _ => none

theorem backed_start (clientAddr : SockAddrIn) (stack : Stack ν) :
    (start clientAddr stack).Backed :=
  ⟨Nat.le_refl 0, fun member => absurd member List.not_mem_nil⟩

/-- A turn uses up the event it handles. -/
theorem backed_handleEvent {s : Server ν} (backed : s.Backed) {source : Source}
    {batch : List Source} (head : s.watch.batch = source :: batch) (turn : Turn ν) :
    (handleEvent num s.advance turn source).Backed := by
  have once : source ∉ batch := (List.nodup_cons.mp (head ▸ s.watch.once)).1
  have rest : s.watch.next.batch = batch := by rw [Watch.next_batch, head, List.tail_cons]
  obtain ⟨udp, listening⟩ := backed
  rw [head] at listening
  have later : .listening ∈ s.watch.next.batch → s.backlog ≠ [] := fun member =>
    listening (List.mem_cons_of_mem source (rest ▸ member))
  have fewer : events s.watch.next .udp ≤ s.datagrams.length := le_trans events_next udp
  cases source with
  | udp =>
    have used := events_next_self head
    obtain ⟨first, datagrams, queue⟩ := List.exists_cons_of_length_pos
      (lt_of_lt_of_le (Nat.succ_pos _) (used ▸ udp))
    rw [queue, List.length_cons] at udp
    simp only [handleEvent, udpTurn, advance, queue]
    exact ⟨Nat.le_of_succ_le_succ (used.trans_le udp), later⟩
  | listening =>
    obtain ⟨connection, backlog, queue⟩ := List.exists_cons_of_ne_nil
      (listening List.mem_cons_self)
    have none : .listening ∉ s.watch.next.batch := rest.symm ▸ once
    simp only [handleEvent, acceptTurn, advance, queue]
    split
    · exact ⟨le_trans (events_raise_other nofun) fewer, fun member => absurd member none⟩
    · exact ⟨fewer, fun member => absurd member none⟩
  | client fd =>
    cases closed : (s.advance.input fd turn).buf.isNone with
    | true =>
      simp only [handleEvent, clientTurn, closed, if_true]
      exact ⟨le_trans (events_forget _) fewer, later⟩
    | false =>
      simp only [handleEvent, clientTurn, closed, Bool.false_eq_true, if_false]
      exact ⟨fewer, later⟩

theorem backed_serve {s : Server ν} (backed : s.Backed) (action : Action ν) :
    (serve num s action).Backed := by
  by_cases enabled : s.Enabled action
  · rw [serve_of_enabled enabled]
    obtain ⟨udp, listening⟩ := backed
    cases action with
    | datagram sender text =>
      refine ⟨le_trans events_raise_self ?_, listening⟩
      show events s.watch .udp + 1 ≤ (s.datagrams ++ [(sender, text)]).length
      rw [List.length_append]
      exact Nat.add_le_add_right udp 1
    | connect connection =>
      exact ⟨udp, fun _ => List.append_ne_nil_of_right_ne_nil _ (List.cons_ne_nil _ _)⟩
    | bytes fd text => exact ⟨le_trans (events_raise_other nofun) udp, listening⟩
    | hangUp fd => exact ⟨le_trans (events_raise_other nofun) udp, listening⟩
    | lapse source => exact ⟨le_trans (events_forget source) udp, listening⟩
    | epollWait reported once =>
      have ready := enabled.2.2.2
      exact ⟨le_trans (events_report once (ready .udp)) udp, ready .listening⟩
    | handle turn =>
      obtain ⟨source, batch, head⟩ := List.exists_cons_of_ne_nil enabled.2.1
      rw [effect_handle head]
      exact backed_handleEvent num ⟨udp, listening⟩ head turn
  · rw [serve_of_not_enabled enabled]
    exact backed

/-- **The loop goes through one of its runs**: `recvfrom` never finds the queue empty. -/
theorem serve_loop {s : Server ν} (backed : s.Backed) {action : Action ν}
    (enabled : s.Enabled action) :
    (serve num s action).loop = Runs.run (step num) s.loop (s.handed action).toList := by
  rw [serve_of_enabled enabled]
  cases action with
  | handle turn =>
    obtain ⟨source, batch, head⟩ := List.exists_cons_of_ne_nil enabled.2.1
    rw [effect_handle head]
    cases source with
    | udp =>
      have used := events_next_self head
      obtain ⟨first, datagrams, queue⟩ := List.exists_cons_of_length_pos
        (lt_of_lt_of_le (Nat.succ_pos _) (used ▸ backed.udp))
      simp only [handed, head, queue, handleEvent, udpTurn, advance]
      rfl
    | listening =>
      obtain ⟨connection, backlog, queue⟩ := List.exists_cons_of_ne_nil
        (backed.listening (head ▸ List.mem_cons_self))
      simp only [handed, head, queue, handleEvent, acceptTurn, advance]
      rfl
    | client fd =>
      simp only [handed, head]
      rfl
  | _ => rfl

/-- **Every run of the server is a run of the loop.** -/
theorem run_loop (clientAddr : SockAddrIn) (stack : Stack ν) (actions : List (Action ν)) :
    ∃ events, (Runs.run (serve num) (start clientAddr stack) actions).loop =
      Runs.run (step num) (LoopState.start clientAddr stack) events := by
  refine (Runs.run_induction (serve num) (fun s => s.Backed ∧ ∃ events,
    s.loop = Runs.run (step num) (LoopState.start clientAddr stack) events)
    (fun s action reached => ?_) ⟨backed_start clientAddr stack, [], rfl⟩ actions).2
  obtain ⟨backed, events, same⟩ := reached
  refine ⟨backed_serve num backed action, ?_⟩
  by_cases enabled : s.Enabled action
  · refine ⟨events ++ (s.handed action).toList, ?_⟩
    rw [serve_loop num backed enabled, same, Runs.run_append]
  · rw [serve_of_not_enabled enabled]
    exact ⟨events, same⟩

end Loop

end Server

end Bacteria.Serv
