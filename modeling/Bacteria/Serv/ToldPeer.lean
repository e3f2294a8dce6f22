/-
**Which peer a handler is told about.**

All branches of the loop share one `client_addr`; the branch for a TCP descriptor does not set it. A
handler is therefore told the address stored last, by an accepted connection or a datagram.

* `acceptedOn fd history` — the peer that was accepted on `fd`; `lastStored` — the address stored last.
* `stored_history` — what the loop's variables hold after any events.
* `toldPeer_iff` — the handlers are told the right peer exactly in the runs in which, whenever a
  handler runs, the address stored last is that of its peer.
-/

import Bacteria.Serv.Thread
import Bacteria.Lib.Runs

namespace Bacteria.Serv

open Clib Lua

section History

variable {ν : Type}

/-- The peer accepted on `fd`, on the latest accepted connection with that descriptor. -/
def acceptedOn (fd : Nat) (history : List (Event ν)) : Option SockAddrIn :=
  history.foldl (fun peer event =>
    match event with
    | .accepted other addr => if other = fd then some addr else peer
    | _ => peer) none

/-- The address that was stored last, `clientAddr` before any event. -/
def lastStored (clientAddr : SockAddrIn) (history : List (Event ν)) : SockAddrIn :=
  history.foldl (fun addr event =>
    match event with
    | .datagram d => d.sender
    | .accepted _ peer => peer
    | .readable _ _ => addr) clientAddr

/-- The state after some events. -/
def loopAfter (num : Numerals ν) (clientAddr : SockAddrIn) (stack : Stack ν)
    (events : List (Event ν)) : LoopState ν :=
  Runs.run (step num) (LoopState.start clientAddr stack) events

/-- Every handler that is run is given the ip and the port of the peer accepted on its descriptor. -/
def ToldPeer (num : Numerals ν) (clientAddr : SockAddrIn) (stack : Stack ν)
    (events : List (Event ν)) : Prop :=
  ∀ before event after, events = before ++ event :: after →
    ∀ call, handlerCall (loopAfter num clientAddr stack before) event = some call →
      ∃ peer, acceptedOn call.sock before = some peer ∧ call.uIp.bytes = inetNtoa peer.sAddr ∧
        call.uPort = htons peer.sinPort

/-- Whenever data is dispatched, the address stored last is that of the peer accepted there. -/
def PeerStoredLast (num : Numerals ν) (clientAddr : SockAddrIn) (stack : Stack ν)
    (events : List (Event ν)) : Prop :=
  ∀ before event after, events = before ++ event :: after →
    ∀ found, dispatched (loopAfter num clientAddr stack before) event = some found →
      ∃ peer, acceptedOn found.1 before = some peer ∧
        (lastStored clientAddr before).sAddr = peer.sAddr ∧
        (lastStored clientAddr before).sinPort = peer.sinPort

/-- What the variables of a waiting loop hold after `history`. -/
structure Stored (clientAddr : SockAddrIn) (history : List (Event ν)) (s : LoopState ν) : Prop where
  addr : s.clientAddr = lastStored clientAddr history
  peers : ∀ fd peer, s.peers fd = some peer → acceptedOn fd history = some peer

variable {num : Numerals ν}

/-- A readable descriptor can only close itself. -/
theorem readable_frame (num : Numerals ν) (s : LoopState ν) (fd : Nat) (input : Input ν) :
    (step num s (.readable fd input)).clientAddr = s.clientAddr ∧
      ∀ other peer, (step num s (.readable fd input)).peers other = some peer →
        s.peers other = some peer := by
  rcases step_readable_cases num s fd input with
    ⟨same, _⟩ | ⟨_, closes⟩ | ⟨buf, _, dispatches | stops⟩
  · rw [same]
    exact ⟨rfl, fun _ _ found => found⟩
  · rw [closes]
    refine ⟨rfl, fun other peer (found : (if other = fd then none else s.peers other) = _) => ?_⟩
    by_cases here : other = fd
    · rw [if_pos here] at found
      cases found
    · rwa [if_neg here] at found
  · obtain ⟨addr, peers⟩ := dispatch_frame num s fd buf input.world
    rw [dispatches, addr, peers]
    exact ⟨rfl, fun _ _ found => found⟩
  · rw [stops]
    exact ⟨rfl, fun _ _ found => found⟩

/-- **The variables after any events**, while the loop waits. -/
theorem stored_history (clientAddr : SockAddrIn) (stack : Stack ν) (events : List (Event ν)) :
    (loopAfter num clientAddr stack events).mode = .waiting →
      Stored clientAddr events (loopAfter num clientAddr stack events) := by
  refine Runs.run_history _ (fun history s => s.mode = .waiting → Stored clientAddr history s)
    ?_ ?_ events
  · exact fun _ => ⟨rfl, fun fd peer found => by cases found⟩
  intro history s event invariant waits
  have waited : s.mode = .waiting := by
    by_contra stopped
    rw [step_stopped stopped] at waits
    exact stopped waits
  obtain ⟨addr, peers⟩ := invariant waited
  cases event with
  | datagram d =>
    refine ⟨?_, fun fd peer found => ?_⟩
    · simp [step, waited, lastStored]
    · have same : s.peers fd = some peer := by simpa [step, waited] using found
      rw [← peers fd peer same]
      simp [acceptedOn]
  | accepted fd peer =>
    refine ⟨?_, fun other found same => ?_⟩
    · simp [step, waited, lastStored]
    · by_cases here : fd = other
      · have accepted : peer = found := by simpa [step, waited, here] using same
        simp [acceptedOn, here, accepted]
      · have kept : s.peers other = some found := by
          simpa [step, waited, Ne.symm here] using same
        rw [← peers other found kept]
        simp [acceptedOn, here]
  | readable fd input =>
    obtain ⟨sameAddr, fewer⟩ := readable_frame num s fd input
    refine ⟨?_, fun other peer found => ?_⟩
    · rw [sameAddr, addr]
      simp [lastStored]
    · rw [← peers other peer (fewer other peer found)]
      simp [acceptedOn]

/-- **When handlers are told the right peer**: in the runs in which the address stored last is the
peer's own whenever data is dispatched. -/
theorem toldPeer_iff (num : Numerals ν) (clientAddr : SockAddrIn) (stack : Stack ν)
    (events : List (Event ν)) :
    ToldPeer num clientAddr stack events ↔ PeerStoredLast num clientAddr stack events := by
  have agree : ∀ before event found,
      dispatched (loopAfter num clientAddr stack before) event = some found →
      handlerCall (loopAfter num clientAddr stack before) event =
        some ((loopAfter num clientAddr stack before).call found.1 found.2.1) ∧
      (loopAfter num clientAddr stack before).clientAddr = lastStored clientAddr before := by
    intro before event found reaches
    have waiting := (step_dispatched num reaches).1
    exact ⟨by rw [handlerCall, reaches]; rfl, (stored_history clientAddr stack before waiting).addr⟩
  constructor
  · intro told before event after shape found reaches
    obtain ⟨calls, stored⟩ := agree before event found reaches
    obtain ⟨peer, accepted, ip, port⟩ := told before event after shape _ calls
    refine ⟨peer, accepted, ?_, ?_⟩
    · rw [← stored]
      exact inetNtoa_injective ip
    · rw [← stored]
      exact htons_injective port
  · intro last before event after shape call calls
    obtain ⟨found, reaches, rfl⟩ := Option.map_eq_some_iff.mp calls
    obtain ⟨_, stored⟩ := agree before event found reaches
    obtain ⟨peer, accepted, addr, port⟩ := last before event after shape found reaches
    refine ⟨peer, accepted, ?_, ?_⟩
    · show inetNtoa (loopAfter num clientAddr stack before).clientAddr.sAddr = inetNtoa peer.sAddr
      rw [stored, addr]
    · show htons (loopAfter num clientAddr stack before).clientAddr.sinPort = htons peer.sinPort
      rw [stored, port]

/-- Two clients, 10.0.0.1:1000 and 10.0.0.2:2000. -/
def firstClient : SockAddrIn := ⟨2, htons 1000, 0x0100000a⟩

def secondClient : SockAddrIn := ⟨2, htons 2000, 0x0200000a⟩

/-- Lua with `server_inited` set, whose handlers return nothing. -/
def quietWorld : World Int where
  globals name := if name = ascii "server_inited" then .boolean true else .object 0
  outcome := .returned []

/-- `abcd` arrives. -/
def abcdArrives : Input Int := ⟨.data (ascii "abcd") (by decide), [], quietWorld⟩

/-- The first client connects as 5, the second as 6, and the first sends `abcd`. -/
def crossedEvents : List (Event Int) :=
  [.accepted 5 firstClient, .accepted 6 secondClient, .readable 5 abcdArrives]

/-- **The handler of the first client is told the second one.** -/
theorem crossedEvents_misled : ¬ ToldPeer .integers firstClient [] crossedEvents := by
  intro told
  obtain ⟨peer, accepted, ip, _⟩ := told [.accepted 5 firstClient, .accepted 6 secondClient] _ []
    rfl _ rfl
  obtain rfl : firstClient = peer := Option.some.inj accepted
  exact absurd (inetNtoa_injective ip) (by decide)

end History

end Bacteria.Serv
