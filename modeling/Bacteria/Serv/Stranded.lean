/-
**Data that no event announces.**

* `Unread`, `NothingUnread`, `Blocked` — what the loop has not received, and the state in which it waits
  with no event pending.
* `Leaves s source` — one receive does not get everything; `Announced` — what a turn leaves has a newer
  event pending.
* `covered_serve_iff` — one action keeps everything unread announced exactly if it is `Announced`;
  `nothingStranded` — every run of such actions.
* `Stranded`, `unannounced_strands` — what a turn leaves unannounced stays until more arrives.
-/

import Bacteria.Serv.Epoll

namespace Bacteria.Serv

open Clib Lua EdgeTriggered Runs

namespace Server

section Covered

variable {ν : Type}

/-- Something is waiting to be received on a socket registered with `EPOLLET`. -/
def Unread (s : Server ν) : Source → Prop
  | .udp => s.datagrams ≠ []
  | .listening => False
  | .client fd => s.Open fd ∧ s.unread fd ≠ []

/-- No datagram is queued, and no byte is unread on an open accepted socket. -/
def NothingUnread (s : Server ν) : Prop := s.datagrams = [] ∧ ∀ fd, s.Open fd → s.unread fd = []

/-- The loop is about to block in `epoll_wait`. -/
def Blocked (s : Server ν) : Prop :=
  s.loop.mode = .waiting ∧ s.watch.batch = [] ∧ ∀ source, ¬ s.Ready source

/-- One `recvfrom` does not get all datagrams, one `recv` not all bytes. -/
def Leaves (s : Server ν) : Source → Prop
  | .udp => 1 < s.datagrams.length
  | .listening => False
  | .client fd => s.Open fd ∧ sbuf < (s.unread fd).length

/-- **What a turn leaves unread has a newer event pending.** -/
def Announced (s : Server ν) : Action ν → Prop
  | .handle _ => ∀ source ∈ s.watch.batch.head?, s.Leaves source → source ∈ s.watch.pending
  | _ => True

instance (s : Server ν) : DecidablePred s.Leaves
  | .udp => inferInstanceAs (Decidable (_ < _))
  | .listening => inferInstanceAs (Decidable False)
  | .client _ => inferInstanceAs (Decidable (_ ∧ _ < _))

instance (s : Server ν) : DecidablePred s.Announced
  | .handle _ =>
    inferInstanceAs (Decidable (∀ source ∈ s.watch.batch.head?, s.Leaves source → source ∈ _))
  | .datagram _ _ | .connect _ | .bytes _ _ | .hangUp _ | .lapse _ | .epollWait _ _ =>
    inferInstanceAs (Decidable True)

theorem blocked_of_quiet {s : Server ν} (waiting : s.loop.mode = .waiting) (idle : s.watch.batch = [])
    (quiet : s.watch.pending = ∅) (accepted : s.backlog = []) : s.Blocked := by
  refine ⟨waiting, idle, fun source ready => ?_⟩
  have nothing : ∀ source, source ∉ s.watch.pending := fun source waits => by
    rw [quiet] at waits
    exact Finset.notMem_empty source waits
  cases source with
  | udp => exact nothing .udp ready
  | listening => exact ready accepted
  | client fd => exact nothing (.client fd) ready

/-- Whatever is unread has an event pending, or in the batch. -/
def Covered (s : Server ν) : Prop := EdgeTriggered.Covered s.Unread s.watch

theorem nothingUnread_iff (s : Server ν) : s.NothingUnread ↔ ∀ source, ¬ s.Unread source := by
  constructor
  · rintro ⟨none, read⟩ source left
    cases source with
    | udp => exact left none
    | listening => exact left
    | client fd => exact left.2 (read fd left.1)
  · intro nothing
    exact ⟨not_not.mp (nothing .udp), fun fd isOpen => by_contra fun left => nothing (.client fd)
      ⟨isOpen, left⟩⟩

/-- **When the loop blocks, everything covered has been read.** -/
theorem Covered.nothingUnread {s : Server ν} (covered : s.Covered) (blocked : s.Blocked) :
    s.NothingUnread := by
  obtain ⟨_, idle, quiet⟩ := blocked
  rw [nothingUnread_iff]
  intro source
  cases source with
  | udp => exact EdgeTriggered.Covered.nothing_unread covered (quiet .udp) idle
  | listening => exact id
  | client fd => exact EdgeTriggered.Covered.nothing_unread covered (quiet (.client fd)) idle

/-! ### An arrival -/

variable (num : Numerals ν)

/-- The socket an action brings something new for. -/
def fed : Action ν → Option Source
  | .datagram _ _ => some .udp
  | .bytes fd _ => some (.client fd)
  | .hangUp fd => some (.client fd)
  | _ => none

/-- Outside a turn, only what arrives for a source changes what is unread there. -/
theorem unread_effect (s : Server ν) {action : Action ν} (noTurn : ∀ turn, action ≠ .handle turn)
    {source : Source} (nothingNew : fed action ≠ some source) :
    (effect num s action).Unread source ↔ s.Unread source := by
  cases source with
  | listening => exact Iff.rfl
  | udp =>
    cases action with
    | datagram sender text => exact absurd rfl nothingNew
    | handle turn => exact absurd rfl (noTurn turn)
    | _ => exact Iff.rfl
  | client fd =>
    cases action with
    | bytes other text =>
      have apart : fd ≠ other := fun same => nothingNew (same ▸ rfl)
      have same : (effect num s (.bytes other text)).unread fd = s.unread fd :=
        Function.update_of_ne apart _ s.unread
      rw [Unread, Unread, same]
      exact Iff.rfl
    | handle turn => exact absurd rfl (noTurn turn)
    | _ => exact Iff.rfl

/-- Everything unread stays announced when something arrives, and over `epoll_wait`. -/
theorem covered_arrival {s : Server ν} (covered : s.Covered) {action : Action ν}
    (enabled : s.Enabled action) (noTurn : ∀ turn, action ≠ .handle turn) :
    (effect num s action).Covered := by
  have fewer := fun g (nothingNew : fed action ≠ some g) =>
    (unread_effect num s noTurn nothingNew).mp
  have others := fun source (feeds : fed action = some source) g (other : g ≠ source) =>
    fewer g fun this => other (Option.some.inj (this.symm.trans feeds))
  cases action with
  | datagram sender text => exact covered_raise (others .udp rfl) covered
  | connect connection => exact EdgeTriggered.Covered.mono (fun g => fewer g nofun) covered
  | bytes fd text => exact covered_raise (others (.client fd) rfl) covered
  | hangUp fd => exact covered_raise (others (.client fd) rfl) covered
  | lapse source =>
    refine covered_forget (fun left => ?_) (fun g _ => fewer g nofun) covered
    cases source with
    | udp => exact enabled left
    | listening => exact left
    | client fd => exact enabled (Or.inl left.2)
  | epollWait reported once =>
    exact EdgeTriggered.Covered.mono (fun g => fewer g nofun)
      (covered_report enabled.2.1 once covered)
  | handle turn => exact absurd rfl (noTurn turn)

/-! ### What a turn leaves -/

/-- One `recvfrom` takes one datagram. -/
theorem udpTurn_unread_udp (s : Server ν) (turn : Turn ν) :
    (udpTurn num s turn).Unread .udp ↔ s.Leaves .udp := by
  cases queue : s.datagrams with
  | nil => simp [Unread, Leaves, udpTurn, queue]
  | cons first datagrams => simp [Unread, Leaves, udpTurn, queue, List.length_pos_iff]

theorem udpTurn_unread_other (s : Server ν) (turn : Turn ν) {g : Source} (other : g ≠ .udp) :
    (udpTurn num s turn).Unread g ↔ s.Unread g := by
  cases g with
  | udp => exact absurd rfl other
  | listening => exact Iff.rfl
  | client fd =>
    unfold udpTurn
    split
    · exact Iff.rfl
    · simp only [Unread, Open, step_peers_of_datagram]

/-- One `accept` leaves the other sockets alone. -/
theorem acceptTurn_unread_other {s : Server ν} (waiting : s.loop.mode = .waiting) (turn : Turn ν)
    {g : Source} (other : g ≠ .client turn.fd) :
    (acceptTurn num s turn).Unread g ↔ s.Unread g := by
  unfold acceptTurn
  cases g with
  | udp => split <;> exact Iff.rfl
  | listening => exact Iff.rfl
  | client fd =>
    have apart : fd ≠ turn.fd := fun same => other (congrArg Source.client same)
    split
    · exact Iff.rfl
    · simp [Unread, Open, step, waiting, apart]

/-- What had arrived before `accept` has an event pending after it. -/
theorem covered_acceptTurn {s : Server ν} (waiting : s.loop.mode = .waiting) (turn : Turn ν)
    (covered : s.Covered) : (acceptTurn num s turn).Covered := by
  have others := fun g (other : g ≠ Source.client turn.fd) =>
    (acceptTurn_unread_other num waiting turn other).mp
  unfold acceptTurn at others ⊢
  split
  · exact covered
  · rename_i connection backlog queue
    rw [queue] at others
    by_cases arrived : connection.unread ≠ [] ∨ connection.hungUp = true
    · simp only [if_pos arrived] at others ⊢
      exact covered_raise others covered
    · simp only [if_neg arrived] at others ⊢
      refine EdgeTriggered.Covered.mono (fun g left => others g (fun this => ?_) left) covered
      subst this
      have none : connection.unread = [] := not_not.mp fun some => arrived (Or.inl some)
      exact left.2 ((Function.update_self turn.fd connection.unread s.unread).trans none)

/-- One `recv` takes `sizeof(buf)` bytes. -/
theorem clientTurn_unread_client (s : Server ν) (fd : Nat) (turn : Turn ν) :
    (clientTurn num s fd turn).Unread (.client fd) ↔ s.Leaves (.client fd) := by
  have rest : (clientTurn num s fd turn).unread fd = (s.unread fd).drop sbuf :=
    Function.update_self fd _ s.unread
  have left : (s.unread fd).drop sbuf ≠ [] ↔ sbuf < (s.unread fd).length := by
    rw [ne_eq, List.drop_eq_nil_iff, Nat.not_le]
  rw [Unread, Leaves, rest, left]
  refine and_congr_left fun more => ?_
  have filled : (s.input fd turn).buf.isNone = false := by
    rw [← Bool.not_eq_true, input_closed_iff]
    rintro ⟨none, _⟩
    rw [none] at more
    exact Nat.not_lt_zero sbuf more
  rw [Open, Open, clientTurn, step_peers_of_received s.loop fd filled]

theorem clientTurn_unread_other {s : Server ν} (waiting : s.loop.mode = .waiting) (fd : Nat)
    (turn : Turn ν) {g : Source} (other : g ≠ .client fd) :
    (clientTurn num s fd turn).Unread g ↔ s.Unread g := by
  cases g with
  | udp => exact Iff.rfl
  | listening => exact Iff.rfl
  | client fd' =>
    have apart : fd' ≠ fd := fun same => other (congrArg Source.client same)
    have bytes : (clientTurn num s fd turn).unread fd' = s.unread fd' :=
      Function.update_of_ne apart _ s.unread
    have opens : (clientTurn num s fd turn).Open fd' ↔ s.Open fd' := by
      rw [Open, Open, clientTurn]
      cases closed : (s.input fd turn).buf.isNone with
      | true => rw [step_peers_of_closed waiting fd closed, if_neg apart]
      | false => rw [step_peers_of_received s.loop fd closed]
    rw [Unread, Unread, bytes, opens]

/-- A socket that is given up holds nothing unread. -/
theorem clientTurn_watch (s : Server ν) (fd : Nat) (turn : Turn ν) :
    (clientTurn num s fd turn).watch = s.watch ∨
      (clientTurn num s fd turn).watch = s.watch.forget (.client fd) ∧
        ¬ (clientTurn num s fd turn).Unread (.client fd) := by
  cases closed : (s.input fd turn).buf.isNone with
  | false =>
    left
    simp [clientTurn, closed]
  | true =>
    right
    refine ⟨by simp [clientTurn, closed], fun left => ?_⟩
    have more := ((clientTurn_unread_client num s fd turn).mp left).2
    rw [((input_closed_iff s fd turn).mp closed).1] at more
    exact Nat.not_lt_zero sbuf more

/-! ### One action -/

/-- **A turn keeps everything unread announced** exactly if what it leaves has a newer event. -/
theorem covered_handleEvent_iff {s : Server ν} (covered : s.Covered)
    (waiting : s.loop.mode = .waiting) {source : Source} {batch : List Source}
    (head : s.watch.batch = source :: batch) (turn : Turn ν) :
    (handleEvent num s.advance turn source).Covered ↔
      (s.Leaves source → source ∈ s.watch.pending) := by
  cases source with
  | udp =>
    rw [Covered, handleEvent, udpTurn_watch]
    exact (covered_next_iff head (fun _ => udpTurn_unread_other num s.advance turn) covered).trans
      (imp_congr_left (udpTurn_unread_udp num s.advance turn))
  | listening =>
    have advanced : s.advance.Covered :=
      (covered_next_iff head (fun _ _ => Iff.rfl) covered).mpr False.elim
    exact iff_of_true (covered_acceptTurn num (s := s.advance) waiting turn advanced) False.elim
  | client fd =>
    have advanced := (covered_next_iff head
      (fun _ => clientTurn_unread_other num (s := s.advance) waiting fd turn) covered).trans
        (imp_congr_left (clientTurn_unread_client num s.advance fd turn))
    rw [Covered, handleEvent]
    rcases clientTurn_watch num s.advance fd turn with kept | ⟨closed, nothing⟩
    · rw [kept]
      exact advanced
    · rw [closed]
      have empty : ¬ s.Leaves (.client fd) := fun leaves =>
        nothing ((clientTurn_unread_client num s.advance fd turn).mpr leaves)
      exact iff_of_true (covered_forget nothing (fun _ _ left => left)
        (advanced.mpr fun leaves => absurd leaves empty)) fun leaves => absurd leaves empty

/-- **One action** keeps everything unread announced exactly if it is `Announced`. -/
theorem covered_serve_iff {s : Server ν} (covered : s.Covered) {action : Action ν}
    (enabled : s.Enabled action) : (serve num s action).Covered ↔ s.Announced action := by
  rw [serve_of_enabled enabled]
  cases action with
  | handle turn =>
    obtain ⟨waiting, busy, _⟩ := enabled
    obtain ⟨source, batch, head⟩ := List.exists_cons_of_ne_nil busy
    rw [effect_handle head, covered_handleEvent_iff num covered waiting head, Announced, head]
    simp
  | _ => exact iff_of_true (covered_arrival num covered enabled nofun) trivial

theorem covered_serve {s : Server ν} (covered : s.Covered) {action : Action ν}
    (announced : s.Announced action) : (serve num s action).Covered := by
  by_cases enabled : s.Enabled action
  · exact (covered_serve_iff num covered enabled).mpr announced
  · rw [serve_of_not_enabled enabled]
    exact covered

/-! ### Every run -/

theorem covered_start (clientAddr : SockAddrIn) (stack : Stack ν) :
    (start clientAddr stack).Covered := by
  refine EdgeTriggered.covered_start fun source left => ?_
  cases source with
  | udp => exact left rfl
  | listening => exact left
  | client fd => exact left.2 rfl

/-- **Nothing is stranded** in a run whose turns all announce what they leave: wherever the loop blocks,
no datagram is queued and no byte is unread. -/
theorem nothingStranded (clientAddr : SockAddrIn) (stack : Stack ν)
    {actions before : List (Action ν)}
    (announced : EveryStep (serve num) Announced (start clientAddr stack) actions)
    (reached : before <+: actions)
    (blocked : (run (serve num) (start clientAddr stack) before).Blocked) :
    (run (serve num) (start clientAddr stack) before).NothingUnread :=
  have covered : (run (serve num) (start clientAddr stack) before).Covered :=
    everyStep_induction Covered (fun _ _ covered => covered_serve num covered)
      (covered_start clientAddr stack) announced reached
  covered.nothingUnread blocked

end Covered

section Samples

/-- Lua with `server_inited` set, whose handlers return nothing. -/
def quietTurn : Turn Int := ⟨5, 0, 0, [], ⟨fun _ => .boolean true, .returned []⟩⟩

/-- The peer 127.0.0.1:8080. -/
def localPeer : SockAddrIn := ⟨2, htons 8080, 0x0100007F⟩

/-- The opcode of `event0`. -/
def opcode0 : Bytes := [0x01, ignorebyte, ignorebyte, 0x01]

/-- A datagram arrives, and a connection with `count` zeros behind an opcode; both are handled. -/
def arrivals (texts : List Bytes) (count : Nat) : List (Action Int) :=
  texts.map (.datagram localPeer) ++
    [.epollWait [.udp] (List.nodup_singleton _), .handle quietTurn,
      .connect ⟨localPeer, [], false⟩, .epollWait [.listening] (List.nodup_singleton _),
      .handle quietTurn, .bytes 5 (opcode0 ++ List.replicate count 0),
      .epollWait [.client 5] (List.nodup_singleton _), .handle quietTurn]

/-- The state after them. -/
def afterArrivals (texts : List Bytes) (count : Nat) : Server Int :=
  run (serve .integers) (start localPeer []) (arrivals texts count)

/-- After one datagram and eight bytes the loop blocks, and nothing is unread. -/
theorem nothingStranded_sample :
    (afterArrivals [ascii "a"] 4).Blocked ∧ (afterArrivals [ascii "a"] 4).NothingUnread := by
  have announced : EveryStep (serve .integers) Announced (start localPeer [])
      (arrivals [ascii "a"] 4) := by decide +kernel
  have blocked : (afterArrivals [ascii "a"] 4).Blocked :=
    blocked_of_quiet (by decide +kernel) (by decide +kernel) (by decide +kernel)
      (List.isEmpty_iff.mp (by decide +kernel))
  exact ⟨blocked,
    nothingStranded .integers localPeer [] announced (List.prefix_refl _) blocked⟩

/-- **Two datagrams before one `epoll_wait`, or 1025 bytes before another**: the loop blocks with the
second datagram queued, or with the last byte unread. -/
theorem moreThanOneRead_stranded :
    (afterArrivals [ascii "a", ascii "b"] 4).Blocked ∧
      (afterArrivals [ascii "a", ascii "b"] 4).datagrams = [(localPeer, ascii "b")] ∧
      (afterArrivals [ascii "a"] 1021).Blocked ∧ (afterArrivals [ascii "a"] 1021).Open 5 ∧
      (afterArrivals [ascii "a"] 1021).unread 5 = [0] ∧
      ¬ ∀ actions : List (Action Int),
        (run (serve .integers) (start localPeer []) actions).Blocked →
          (run (serve .integers) (start localPeer []) actions).NothingUnread := by
  have queued : (afterArrivals [ascii "a", ascii "b"] 4).datagrams = [(localPeer, ascii "b")] := by
    decide +kernel
  have udp : (afterArrivals [ascii "a", ascii "b"] 4).Blocked :=
    blocked_of_quiet (by decide +kernel) (by decide +kernel) (by decide +kernel)
      (List.isEmpty_iff.mp (by decide +kernel))
  have tcp : (afterArrivals [ascii "a"] 1021).Blocked :=
    blocked_of_quiet (by decide +kernel) (by decide +kernel) (by decide +kernel)
      (List.isEmpty_iff.mp (by decide +kernel))
  refine ⟨udp, queued, tcp, by decide +kernel, by decide +kernel, fun never => ?_⟩
  have read := (never (arrivals [ascii "a", ascii "b"] 4) udp).1
  exact absurd (queued.symm.trans read) (List.cons_ne_nil _ _)

end Samples

/-! ### What is left -/

section Stranded

variable {ν : Type} (num : Numerals ν)

/-- Something is unread, and no event will tell. -/
def Stranded (s : Server ν) (source : Source) : Prop := s.Unread source ∧ Silent source s.watch

/-- **A turn that leaves something unannounced strands it.** -/
theorem stranded_of_not_announced {s : Server ν} (covered : s.Covered) {action : Action ν}
    (enabled : s.Enabled action) (unannounced : ¬ s.Announced action) :
    ∃ source, (serve num s action).Stranded source := by
  rw [← covered_serve_iff num covered enabled] at unannounced
  exact not_covered_iff.mp unannounced

/-- The next turn leaves the other sockets as they are. -/
theorem stranded_handleEvent {s : Server ν} {source : Source} (stranded : s.Stranded source)
    (waiting : s.loop.mode = .waiting) {first : Source} (other : source ≠ first) (turn : Turn ν)
    (unused : first = .listening → ¬ s.Open turn.fd) :
    (handleEvent num s turn first).Stranded source := by
  obtain ⟨left, silent⟩ := stranded
  cases first with
  | udp =>
    refine ⟨(udpTurn_unread_other num s turn other).mpr left, ?_⟩
    rw [handleEvent, udpTurn_watch]
    exact silent
  | listening =>
    have apart : source ≠ .client turn.fd := fun this => unused rfl (this ▸ left).1
    refine ⟨(acceptTurn_unread_other num waiting turn apart).mpr left, ?_⟩
    rw [handleEvent]
    rcases acceptTurn_watch num s turn with kept | raised
    · rw [kept]
      exact silent
    · rw [raised]
      exact silent.raise apart
  | client fd =>
    refine ⟨(clientTurn_unread_other num waiting fd turn other).mpr left, ?_⟩
    rw [handleEvent]
    rcases clientTurn_watch num s fd turn with kept | ⟨closed, _⟩
    · rw [kept]
      exact silent
    · rw [closed]
      exact silent.forget

/-- One action that brings nothing new for a source leaves it stranded. -/
theorem stranded_serve {s : Server ν} {source : Source} {action : Action ν}
    (nothingNew : fed action ≠ some source) (stranded : s.Stranded source) :
    (serve num s action).Stranded source := by
  by_cases enabled : s.Enabled action
  · rw [serve_of_enabled enabled]
    obtain ⟨left, silent⟩ := stranded
    have kept := fun noTurn => (unread_effect num s noTurn nothingNew).mpr left
    cases action with
    | datagram sender text =>
      exact ⟨kept nofun, silent.raise fun this => nothingNew (this ▸ rfl)⟩
    | connect connection => exact ⟨kept nofun, silent⟩
    | bytes fd text => exact ⟨kept nofun, silent.raise fun this => nothingNew (this ▸ rfl)⟩
    | hangUp fd => exact ⟨kept nofun, silent.raise fun this => nothingNew (this ▸ rfl)⟩
    | lapse other => exact ⟨kept nofun, silent.forget⟩
    | epollWait reported once =>
      refine ⟨kept nofun, silent.report once fun member => ?_⟩
      have ready := enabled.2.2.2 source member
      cases source with
      | udp => exact silent.1 ready
      | listening => exact left
      | client fd => exact silent.1 ready
    | handle turn =>
      obtain ⟨waiting, busy, unused⟩ := enabled
      obtain ⟨first, batch, head⟩ := List.exists_cons_of_ne_nil busy
      have other : source ≠ first := fun this =>
        silent.2 (head ▸ this ▸ List.mem_cons_self)
      rw [effect_handle head]
      refine stranded_handleEvent num (s := s.advance) ⟨left, silent.next⟩ waiting other turn
        fun this => unused ?_
      rw [head, this]
      rfl
  · rw [serve_of_not_enabled enabled]
    exact stranded

/-- **What is stranded stays so** until something new arrives for it. -/
theorem stranded_run {s : Server ν} {source : Source} (stranded : s.Stranded source)
    {actions : List (Action ν)} (nothingNew : ∀ action ∈ actions, fed action ≠ some source) :
    (run (serve num) s actions).Stranded source := by
  induction actions generalizing s with
  | nil => exact stranded
  | cons action actions ih =>
    exact ih (stranded_serve num (nothingNew action List.mem_cons_self) stranded)
      fun later member => nothingNew later (List.mem_cons_of_mem _ member)

/-- **The condition is needed**: after a turn that leaves something unannounced, it is unread wherever
the run gets before more arrives. -/
theorem unannounced_strands (clientAddr : SockAddrIn) (stack : Stack ν) {actions : List (Action ν)}
    (announced : EveryStep (serve num) Announced (start clientAddr stack) actions)
    {action : Action ν} (enabled : (run (serve num) (start clientAddr stack) actions).Enabled action)
    (unannounced : ¬ (run (serve num) (start clientAddr stack) actions).Announced action) :
    ∃ source, ∀ later : List (Action ν), (∀ next ∈ later, fed next ≠ some source) →
      ¬ (run (serve num) (start clientAddr stack) (actions ++ action :: later)).NothingUnread := by
  have covered : (run (serve num) (start clientAddr stack) actions).Covered :=
    everyStep_induction Covered (fun _ _ covered => covered_serve num covered)
      (covered_start clientAddr stack) announced (List.prefix_refl actions)
  obtain ⟨source, stranded⟩ := stranded_of_not_announced num covered enabled unannounced
  refine ⟨source, fun later nothingNew read => ?_⟩
  rw [run_append, run_cons] at read
  exact (nothingUnread_iff _).mp read source (stranded_run num stranded nothingNew).1

end Stranded

end Server

end Bacteria.Serv
