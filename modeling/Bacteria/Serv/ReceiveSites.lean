/-
**The four places that receive.**

The UDP and the TCP branch of `serv_thread`, `lua_recv` of libbacteria/lua/libnet.c and the inner loop
of `luaServer` of libbacteria/lua/luaserv.c all store the result of `recv` in a `size_t`.

* `Act` — what a site does with a result; `udpBranch`, `tcpBranch`, `luaRecv`, `luaServer` — the sites;
  `Site.run` — the results a site gets to, each with what it does.
* `tcpBranch_close_iff`, `tcpBranch_dispatched` — the TCP site and the loop of `serv_thread`.
* `treatedRight_iff` — one result; `onlyReceived_iff` — every sequence of results.
-/

import Bacteria.Lib.Recv
import Bacteria.Serv.Thread

namespace Bacteria.Serv

open Clib

/-- What a site does with a result: it stores a terminator at this index, reports this count to Lua,
hands these bytes on (to the replies and the registry, to a handler, as a Lua chunk or as a Lua string),
pushes nil, or gives the descriptor up. -/
inductive Act where
  | store (index : Nat)
  | report (count : Nat)
  | process (bytes : Bytes)
  | pushNil
  | close
deriving DecidableEq

/-- The bytes that are handed on. -/
def Act.processed : Act → Option Bytes
  | process bytes => some bytes
  | _ => none

/-- The act takes the result for received bytes. -/
def Act.Uses : Act → Prop
  | store _ => True
  | report _ => True
  | process _ => True
  | pushNil => False
  | close => False

/-! ### The sites -/

/-- The UDP branch; `buf_udp` is not initialised, `stale` is what it holds without a datagram. -/
def udpBranch (stale : Bytes) (r : RecvResult) : List Act :=
  let nbytes := sizeT r.value
  if nbytes < 0 then []
  else [.store nbytes, .process (if r.value = -1 then stale else r.bytes)]

/-- The TCP branch; `buf` is zeroed before. -/
def tcpBranch (r : RecvResult) : List Act :=
  let nbytes := sizeT r.value
  if nbytes ≤ 0 then [.close] else [.process r.bytes]

/-- `lua_recv`; `buf` is zeroed before. -/
def luaRecv (r : RecvResult) : List Act :=
  let n := sizeT r.value
  if n ≤ 0 then [.pushNil] else [.store n, .report n, .process r.bytes]

/-- `while ((msg_size = recv(csocket, buf, LUABUF - 1, 0)) > 0)` of `luaServer`; `buf` is zeroed before
every turn. -/
def luaServer (r : RecvResult) : List Act :=
  let msgSize := sizeT r.value
  if msgSize > 0 then [.process r.bytes] else [.close]

/-- The four sites. -/
inductive Site where
  | udp
  | tcp
  | luaRecv
  | luaServer

namespace Site

/-- What a site does with one result. -/
def receive (stale : Bytes) : Site → RecvResult → List Act
  | udp => udpBranch stale
  | tcp => tcpBranch
  | luaRecv => Serv.luaRecv
  | luaServer => Serv.luaServer

/-- The sites that read one connection until they give it up. -/
def Connection : Site → Prop
  | tcp => True
  | luaServer => True
  | _ => False

/-- The results a site gets to, each with what it does. -/
def run (stale : Bytes) (site : Site) : List RecvResult → List (RecvResult × List Act)
  | [] => []
  | r :: results =>
    let acts := site.receive stale r
    (r, acts) :: if .close ∈ acts then [] else run stale site results

/-- The condition on one result: bytes were received at the UDP site, no failure elsewhere. -/
def Sound : Site → RecvResult → Prop
  | udp, r => 0 < r.value
  | _, r => r.value ≠ -1

/-- The condition on a sequence: at a site that reads one connection, on the results before the first
that says that the peer has closed. -/
def Harmless : Site → List RecvResult → Prop
  | udp, results => ∀ r ∈ results, 0 < r.value
  | luaRecv, results => ∀ r ∈ results, r.value ≠ -1
  | _, results => ∀ r ∈ results.takeWhile (fun r => r.value ≠ 0), r.value ≠ -1

end Site

/-- **A result is treated right**: received bytes are handed on, once; without any, nothing is taken for
received, and a connection is given up unless there was only no data yet. -/
structure TreatedRight (site : Site) (r : RecvResult) (acts : List Act) : Prop where
  received : 0 < r.value → acts.filterMap Act.processed = [r.bytes]
  nothing : r.value ≤ 0 → ∀ act ∈ acts, ¬ act.Uses
  ended : site.Connection → r.value ≤ 0 → r.noDataYet = false → .close ∈ acts

/-- Every result a site gets to is treated right. -/
def OnlyReceived (stale : Bytes) (site : Site) (results : List RecvResult) : Prop :=
  ∀ pair ∈ site.run stale results, TreatedRight site pair.1 pair.2

/-! ### One result -/

/-- The acts of the TCP branch and of `luaServer` are the same. -/
theorem luaServer_eq_tcpBranch (r : RecvResult) : luaServer r = tcpBranch r := by
  rw [luaServer, tcpBranch]
  by_cases closed : sizeT r.value ≤ 0
  · rw [if_neg (Nat.not_lt.mpr closed), if_pos closed]
  · rw [if_pos (Nat.lt_of_not_le closed), if_neg closed]

theorem udpBranch_eq (stale : Bytes) (r : RecvResult) :
    udpBranch stale r =
      [.store (sizeT r.value), .process (if r.value = -1 then stale else r.bytes)] := by
  simp only [udpBranch, if_neg (not_sizeT_lt_zero r.value)]

theorem tcpBranch_eq (r : RecvResult) :
    tcpBranch r = if r.value = 0 then [.close] else [.process r.bytes] := by
  rw [tcpBranch]
  simp only [sizeT_le_zero_iff]

theorem luaRecv_eq (r : RecvResult) :
    luaRecv r = if r.value = 0 then [.pushNil]
      else [.store (sizeT r.value), .report (sizeT r.value), .process r.bytes] := by
  rw [luaRecv]
  simp only [sizeT_le_zero_iff]

/-- A result is positive, zero, or a failure. -/
theorem value_trichotomy (r : RecvResult) : 0 < r.value ∨ r.value = 0 ∨ r.value = -1 := by
  rcases r.value_cases with ⟨failed, _⟩ | received <;> omega

theorem udp_treatedRight_iff (stale : Bytes) (r : RecvResult) :
    TreatedRight .udp r (udpBranch stale r) ↔ 0 < r.value := by
  rw [udpBranch_eq]
  constructor
  · intro right
    by_contra none
    exact right.nothing (not_lt.mp none) (.store (sizeT r.value)) List.mem_cons_self trivial
  · intro positive
    refine ⟨fun _ => ?_, fun none => by omega, fun connection => connection.elim⟩
    rw [if_neg (by omega)]
    rfl

/-- **A site that tells only the result 0 from the others** treats every result right but -1. -/
theorem treatedRight_iff_of_split {site : Site} {r : RecvResult} {stop go : List Act}
    (stops : ∀ act ∈ stop, ¬ act.Uses) (gives : site.Connection → .close ∈ stop)
    (hands : go.filterMap Act.processed = [r.bytes]) (processes : .process r.bytes ∈ go) :
    TreatedRight site r (if r.value = 0 then stop else go) ↔ r.value ≠ -1 := by
  rcases value_trichotomy r with positive | closed | failed
  · rw [if_neg (by omega)]
    exact ⟨fun _ => by omega, fun _ => ⟨fun _ => hands, fun none => by omega, fun _ none => by omega⟩⟩
  · rw [if_pos closed]
    exact ⟨fun _ => by omega, fun _ => ⟨fun positive => by omega, fun _ => stops,
      fun connection _ _ => gives connection⟩⟩
  · rw [if_neg (by omega)]
    refine ⟨fun right => ?_, fun sound => absurd failed sound⟩
    exact absurd trivial (right.nothing (by omega) (.process r.bytes) processes)

theorem tcp_treatedRight_iff (site : Site) (r : RecvResult) :
    TreatedRight site r (tcpBranch r) ↔ r.value ≠ -1 := by
  rw [tcpBranch_eq]
  refine treatedRight_iff_of_split (fun act member => ?_) (fun _ => List.mem_singleton_self _) rfl
    List.mem_cons_self
  rw [List.mem_singleton.mp member]
  exact id

theorem luaRecv_treatedRight_iff (r : RecvResult) :
    TreatedRight .luaRecv r (luaRecv r) ↔ r.value ≠ -1 := by
  rw [luaRecv_eq]
  refine treatedRight_iff_of_split (fun act member => ?_) False.elim rfl
    (List.mem_cons_of_mem _ (List.mem_cons_of_mem _ List.mem_cons_self))
  rw [List.mem_singleton.mp member]
  exact id

/-- **One result at any site.** -/
theorem treatedRight_iff (stale : Bytes) (site : Site) (r : RecvResult) :
    TreatedRight site r (site.receive stale r) ↔ site.Sound r := by
  cases site with
  | udp => exact udp_treatedRight_iff stale r
  | tcp => exact tcp_treatedRight_iff _ r
  | luaRecv => exact luaRecv_treatedRight_iff r
  | luaServer =>
    show TreatedRight .luaServer r (luaServer r) ↔ _
    rw [luaServer_eq_tcpBranch]
    exact tcp_treatedRight_iff _ r

/-- A site gives its descriptor up exactly on the result 0 of a connection. -/
theorem close_mem_iff (stale : Bytes) (site : Site) (r : RecvResult) :
    .close ∈ site.receive stale r ↔ site.Connection ∧ r.value = 0 := by
  have tcp : .close ∈ tcpBranch r ↔ r.value = 0 := by
    rw [tcpBranch_eq]
    by_cases closed : r.value = 0
    · simp [closed]
    · simp [closed]
  cases site with
  | udp =>
    show .close ∈ udpBranch stale r ↔ False ∧ _
    rw [udpBranch_eq]
    simp
  | tcp => exact tcp.trans (true_and _).symm.to_iff
  | luaRecv =>
    show .close ∈ luaRecv r ↔ False ∧ _
    rw [luaRecv_eq]
    by_cases closed : r.value = 0
    · simp [closed]
    · simp [closed]
  | luaServer =>
    show .close ∈ luaServer r ↔ True ∧ _
    rw [luaServer_eq_tcpBranch, tcp, true_and]

/-! ### Every sequence of results -/

theorem onlyReceived_cons (stale : Bytes) (site : Site) (r : RecvResult)
    (results : List RecvResult) :
    OnlyReceived stale site (r :: results) ↔
      site.Sound r ∧ (¬ (site.Connection ∧ r.value = 0) → OnlyReceived stale site results) := by
  rw [← close_mem_iff stale, ← treatedRight_iff stale]
  unfold OnlyReceived
  rw [Site.run]
  by_cases closed : .close ∈ site.receive stale r
  · simp [closed]
  · simp [closed]

theorem harmless_cons (site : Site) (r : RecvResult) (results : List RecvResult) :
    site.Harmless (r :: results) ↔
      site.Sound r ∧ (¬ (site.Connection ∧ r.value = 0) → site.Harmless results) := by
  cases site with
  | udp => simp [Site.Harmless, Site.Sound, Site.Connection]
  | luaRecv => simp [Site.Harmless, Site.Sound, Site.Connection]
  | tcp =>
    by_cases closed : r.value = 0
    · simp [Site.Harmless, Site.Sound, Site.Connection, closed]
    · simp [Site.Harmless, Site.Sound, Site.Connection, closed]
  | luaServer =>
    by_cases closed : r.value = 0
    · simp [Site.Harmless, Site.Sound, Site.Connection, closed]
    · simp [Site.Harmless, Site.Sound, Site.Connection, closed]

/-- What `recv` returned in the loop of `serv_thread`. -/
def Received.result : Received → RecvResult
  | .failed => .failed false
  | .data bytes fits => .data bytes (lt_of_le_of_lt fits (by decide))

section Loop

variable {ν : Type}

/-- **The site gives a descriptor up** exactly when the loop does. -/
theorem tcpBranch_close_iff (input : Input ν) :
    .close ∈ tcpBranch input.received.result ↔ input.buf = none := by
  rw [tcpBranch_eq]
  cases received : input.received with
  | failed => simp [Input.buf, received, Received.result, RecvResult.value]
  | data bytes fits =>
    cases bytes with
    | nil => simp [Input.buf, received, Received.result, RecvResult.value]
    | cons b bytes =>
      have positive : ¬ (Received.data (b :: bytes) fits).result.value = 0 := by
        show ¬ ((b :: bytes).length : Int) = 0
        rw [List.length_cons]
        omega
      rw [if_neg positive]
      simp [Input.buf, received]

/-- **The site hands bytes on** exactly when the event reaches the opcode table. -/
theorem tcpBranch_dispatched {s : LoopState ν} (waiting : s.mode = .waiting) {fd : Nat}
    (isOpen : (s.peers fd).isSome = true) {input : Input ν}
    (inited : input.world.servInited = true) :
    (dispatched s (.readable fd input)).isSome = true ↔
      tcpBranch input.received.result = [.process input.received.result.bytes] := by
  have closes := tcpBranch_close_iff input
  have reaches : (dispatched s (.readable fd input)).isSome = true ↔ input.buf ≠ none := by
    unfold dispatched
    simp only [waiting, isOpen, inited, and_self, if_true, Option.isSome_map]
    exact Option.isSome_iff_ne_none
  rw [reaches, ne_eq, ← closes, tcpBranch_eq]
  by_cases closed : input.received.result.value = 0
  · simp [closed]
  · simp [closed]

end Loop

end Bacteria.Serv
