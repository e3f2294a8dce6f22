/-
**The server, any number of clients, and the datagrams between them.**

The UDP side of src/async_serv.cpp and of src/client/main.cpp as one system. A client runs `getUsers` and
`delByPing(5)` again and again; between any two of its calls anything else can happen, and a datagram can
be lost, repeated or overtaken. Other hosts can send the server any datagram that its arrays have room
for; the clients hear from the server and from each other.

* `Setup` — the addresses, and what the clients were told about the server.
* `Phase`, `contact`, `readClient` — where a client is in `getUsers`, and what it does with the next
  datagram or without one.
* `afterLast`, `leaveTcp` — with more than three users a round goes on over TCP, and ends there or ends
  the process.
* `act` — a turn of a node: the server answers a datagram, a client goes on, an outsider sends.
* `Plain`, `Listed`, `Sound`, `Right` — what the datagrams and the states look like: a text for a client is
  a peer list of hosts that have contacted the server, or has nothing that is taken for one.
-/

import Bacteria.Client.DelByPing
import Bacteria.Client.PeerInfo
import Bacteria.Lib.Datagrams

namespace Bacteria.Client

open Clib Bacteria.Net Bacteria.Serv Datagrams

/-! ### The client as it takes its turns -/

section Keys

theorem PeerPair.lt_trans {a b c : PeerPair} (first : PeerPair.lt a b) (second : PeerPair.lt b c) :
    PeerPair.lt a c := by
  rcases first with less | ⟨same, less⟩ <;> rcases second with less' | ⟨same', less'⟩
  · exact Or.inl (List.lt_trans less less')
  · exact Or.inl (same' ▸ less)
  · exact Or.inl (same ▸ less')
  · exact Or.inr ⟨same.trans same', UInt16.lt_trans less less'⟩

instance peerPairTrans : IsTrans PeerPair PeerPair.lt := ⟨fun _ _ _ => PeerPair.lt_trans⟩

instance peerPairDecidable : DecidableRel PeerPair.lt := fun a b =>
  inferInstanceAs (Decidable (a.1 < b.1 ∨ (a.1 = b.1 ∧ a.2 < b.2)))

end Keys

/-- `getuserlist`. -/
def getUserList : Bytes := ascii "getuserlist\n"

/-- `conUserData`. -/
def conUserData : Bytes := ascii "PING!\n"

/-- The pair a client keeps for an address. -/
def peerOf (addr : SockAddrIn) : PeerPair := (inetNtoa addr.sAddr, htons addr.sinPort)

/-- The addresses of the system; `host` is what the clients were started with, `tcp` says whose
`m_contype` has `con_type::tcp`, and `inetAddr` is the C library's `inet_addr`. -/
structure Setup where
  server : SockAddrIn
  clients : List SockAddrIn
  host : PeerPair
  tcp : SockAddrIn → Bool
  inetAddr : Bytes → UInt32
  apart : server ∉ clients
  inetAddr_inetNtoa : ∀ sAddr, inetAddr (inetNtoa sAddr) = sAddr

/-- Where a client is: between two rounds, before the first or the second read of `getUsers`, waiting for
the answer of a peer, before the last read, or in the part behind it that uses TCP; `strayed` when a text
did not end inside its buffer, `aborted` when an exception nobody catches ended the process. -/
inductive Phase where
  | idle
  | echo
  | list
  | answer (pair : PeerPair) (rest : List Bytes)
  | last
  | tcp
  | strayed
  | aborted

/-- A client. -/
structure ClientState where
  phase : Phase
  usersMap : UserMap

/-- A node. -/
inductive Node where
  | server (users : List User)
  | client (state : ClientState)
  | outside

/-- What a node does, with the readings of its clock; `goes` says whether the next `sendto` succeeds. -/
inductive Input where
  | serve (timenow pingnow : Int)
  | hello
  | round (timenow : Int) (goes : Bool)
  | read (now timenow : Int) (goes : Bool)
  | tcpDone (timenow : Int)
  | outside (text : Bytes)

/-- What a node sends. -/
abbrev Sends := List (SockAddrIn × Bytes)

section Turns

variable (setup : Setup)

/-- The address of a peer, as the constructor of `sock_data` makes it. -/
def adrOf (pair : PeerPair) : SockAddrIn := ⟨2, htons pair.2, setup.inetAddr pair.1⟩

/-- The data of a peer. -/
def sockData (pair : PeerPair) (now : Int) : SockData := ⟨4, adrOf setup pair, now, pair⟩

/-- The end of a round, by an exception or without: `delByPing(5)`. -/
def finish (timenow : Int) (usersMap : UserMap) : ClientState :=
  ⟨.idle, usersMap.filter fun entry => !entry.2.expired timenow 5⟩

/-- What stands behind the last read: `users_map.size() - 1 > 2`, in a map that is not empty. -/
def afterLast (timenow : Int) (usersMap : UserMap) : ClientState :=
  if usersMap.entries.length - 1 > 2 then ⟨.tcp, usersMap⟩ else finish timenow usersMap

/-- The end of the part that uses TCP: behind its `sleep(1000)`, or by a `std::exception` that is caught.
Without a connection its first `write` throws a text, which is none. -/
def leaveTcp (connected : Bool) (timenow : Int) (state : ClientState) : ClientState :=
  match state.phase with
  | .tcp => if connected then finish timenow state.usersMap else { state with phase := .aborted }
  | _ => state

/-- The loop over the addresses, up to the next `read`. -/
def contact (timenow : Int) (goes : Bool) (usersMap : UserMap) : List Bytes → ClientState × Sends
  | [] => (⟨.last, usersMap⟩, [])
  | address :: rest =>
    match peerPair address with
    | none => (finish timenow usersMap, [])
    | some pair =>
      if goes then (⟨.answer pair rest, usersMap⟩, [(adrOf setup pair, conUserData)])
      else (finish timenow usersMap, [])

/-- The key of a sender: its address, unless it is the server. -/
def keyOf (source : SockAddrIn) : PeerPair := if source = setup.server then setup.host else peerOf source

/-- A client is waiting in a `read` of a datagram. -/
def Phase.reads : Phase → Bool
  | .echo | .list | .answer _ _ | .last => true
  | .idle | .tcp | .strayed | .aborted => false

/-- What a client does with a datagram. -/
def readText (now timenow : Int) (goes : Bool) (usersMap : UserMap) (source : SockAddrIn) (text : Bytes) :
    Phase → ClientState × Sends
  | .echo => (⟨.list, usersMap⟩, [])
  | .list => contact setup timenow goes usersMap (split (cstr text) (charByte ';') text.length)
  | .answer pair rest =>
    contact setup timenow goes
      (if text ≠ [] then usersMap.insert pair (sockData setup pair now) else usersMap) rest
  | .last =>
    let key := keyOf setup source
    (afterLast timenow (usersMap.insert key (sockData setup key now)), [])
  | other => (⟨other, usersMap⟩, [])

/-- What it does when `recvfrom` returned nothing. -/
def timeOut (timenow : Int) (goes : Bool) (usersMap : UserMap) : Phase → ClientState × Sends
  | .answer _ rest => contact setup timenow goes usersMap rest
  | _ => (finish timenow usersMap, [])

/-- The next `read` of a client. -/
def readClient (now timenow : Int) (goes : Bool) (state : ClientState)
    (received : Option (Message SockAddrIn Bytes)) : ClientState × Sends :=
  if state.phase.reads then
    match received with
    | none => timeOut setup timenow goes state.usersMap state.phase
    | some message =>
      match readSock message.text with
      | none => (⟨.strayed, state.usersMap⟩, [])
      | some text =>
        readText setup now timenow goes state.usersMap message.source text state.phase
  else (state, [])

/-- The start of a round. -/
def startRound (timenow : Int) (goes : Bool) (state : ClientState) : ClientState × Sends :=
  match state.phase with
  | .idle =>
    if goes then (⟨.echo, state.usersMap⟩, [(setup.server, getUserList)])
    else (finish timenow state.usersMap, [])
  | _ => (state, [])

/-- **A turn of a node.** -/
def act (node : SockAddrIn) (state : Node) (received : Option (Message SockAddrIn Bytes)) (input : Input) :
    Node × Sends :=
  match state, received, input with
  | .server users, some message, .serve timenow pingnow =>
    let handled := receive users ⟨message.source, message.text, timenow, pingnow⟩
    (.server handled.users,
      (handled.echo.toList ++ [handled.list]).map fun text => (message.source, text))
  | .client state, none, .hello => (.client state, [(setup.server, getMyPeerInfo)])
  | .client state, none, .round timenow goes =>
    let next := startRound setup timenow goes state
    (.client next.1, next.2)
  | .client state, received, .read now timenow goes =>
    let next := readClient setup now timenow goes state received
    (.client next.1, next.2)
  | .client state, none, .tcpDone timenow =>
    (.client (leaveTcp (setup.tcp node) timenow state), [])
  | .outside, none, .outside text => (.outside, [(setup.server, text)])
  | state, _, _ => (state, [])

/-- The datagrams of the others fit the arrays of the server: at most 1023 bytes, and at most 228 before
the first NUL. All addresses are those of IP. -/
def Permitted (node : SockAddrIn) (input : Input) : Prop :=
  node.sinFamily = 2 ∧ ∀ text, input = .outside text → text.length ≤ 1023 ∧ (cstr text).strlen ≤ 228

instance (node : SockAddrIn) (input : Input) : Decidable (Permitted node input) :=
  match input with
  | .outside text =>
    decidable_of_iff (node.sinFamily = 2 ∧ text.length ≤ 1023 ∧ (cstr text).strlen ≤ 228)
      ⟨fun ⟨family, fits⟩ => ⟨family, fun _ same => Input.outside.inj same ▸ fits⟩,
        fun permitted => ⟨permitted.1, permitted.2 text rfl⟩⟩
  | .serve _ _ | .hello | .round _ _ | .read _ _ _ | .tcpDone _ =>
    decidable_of_iff (node.sinFamily = 2) ⟨fun family => ⟨family, fun _ same => by cases same⟩, And.left⟩

/-- Nothing is sent, and nobody is known. -/
def start : World SockAddrIn Bytes Node where
  sent := []
  state addr :=
    if addr = setup.server then .server []
    else if addr ∈ setup.clients then .client ⟨.idle, ⟨[], .nil⟩⟩
    else .outside

end Turns

/-! ### What the datagrams and the states look like -/

section Sound

variable (setup : Setup) (sent : List (Message SockAddrIn Bytes))

/-- A host has sent the server a datagram. -/
def Contacted (addr : SockAddrIn) : Prop :=
  ∃ message ∈ sent, message.source = addr ∧ message.target = setup.server

/-- **A peer list** of hosts that have. -/
def Listed (text : Bytes) : Prop :=
  ∃ addrs : List SockAddrIn, (∀ addr ∈ addrs, Contacted setup sent addr ∧ addr.sinFamily = 2) ∧
    addrs.length ≤ 11 ∧ text = terminate (charByte ';') (addrs.map peerText)

/-- **A text without an item**, for any parser of peer lists. -/
structure Plain (text : Bytes) : Prop where
  noNul : (0 : Byte) ∉ text
  noItem : charByte ';' ∉ text
  noReturn : carriageReturn ∉ text
  short : text.length < sbuf

/-- **A datagram as it should be.** -/
structure Sound (message : Message SockAddrIn Bytes) : Prop where
  family : message.source.sinFamily = 2
  toClient : message.target ∈ setup.clients → Plain message.text ∨ Listed setup sent message.text
  fromClient : message.source ∈ setup.clients →
    message.text ∈ [getMyPeerInfo, getUserList, conUserData] ∧
      (message.target = setup.server ∨ Contacted setup sent message.target)

/-- A key that a client may have: what it was told about the server, or the address of a host that has
sent something. -/
def Known (key : PeerPair) : Prop :=
  key = setup.host ∨ ∃ message ∈ sent, key = peerOf message.source

/-- The addresses a client has still to contact. -/
def Pending (rest : List Bytes) : Prop :=
  ∃ addrs : List SockAddrIn, (∀ addr ∈ addrs, Contacted setup sent addr ∧ addr.sinFamily = 2) ∧
    rest = addrs.map peerText

def PhaseRight : Phase → Prop
  | .answer pair rest => Known setup sent pair ∧ Pending setup sent rest
  | .strayed => False
  | _ => True

/-- A client as it should be. -/
structure ClientRight (state : ClientState) : Prop where
  keys : ∀ entry ∈ state.usersMap.entries, Known setup sent entry.1
  phase : PhaseRight setup sent state.phase

/-- **A node as it should be.** -/
def Right (addr : SockAddrIn) : Node → Prop
  | .server users => addr = setup.server ∧ users.length ≤ 11 ∧
    ∀ u ∈ users, Contacted setup sent u.addr ∧ u.addr.sinFamily = 2
  | .client state => addr ∈ setup.clients ∧ ClientRight setup sent state
  | .outside => addr ∉ setup.clients ∧ addr ≠ setup.server

end Sound

/-! ### When more is sent -/

section Later

variable {setup : Setup} {sent more : List (Message SockAddrIn Bytes)}

theorem Contacted.later {addr : SockAddrIn} (contacted : Contacted setup sent addr) :
    Contacted setup (sent ++ more) addr := by
  obtain ⟨message, member, both⟩ := contacted
  exact ⟨message, List.mem_append_left _ member, both⟩

theorem Known.later {key : PeerPair} (known : Known setup sent key) : Known setup (sent ++ more) key := by
  rcases known with same | ⟨message, member, same⟩
  · exact Or.inl same
  · exact Or.inr ⟨message, List.mem_append_left _ member, same⟩

theorem Pending.later {rest : List Bytes} (pending : Pending setup sent rest) :
    Pending setup (sent ++ more) rest := by
  obtain ⟨addrs, contacted, same⟩ := pending
  exact ⟨addrs, fun addr member => ⟨(contacted addr member).1.later, (contacted addr member).2⟩, same⟩

theorem Listed.later {text : Bytes} (listed : Listed setup sent text) :
    Listed setup (sent ++ more) text := by
  obtain ⟨addrs, contacted, few, same⟩ := listed
  exact ⟨addrs, fun addr member => ⟨(contacted addr member).1.later, (contacted addr member).2⟩, few, same⟩

theorem Sound.later {message : Message SockAddrIn Bytes} (sound : Sound setup sent message) :
    Sound setup (sent ++ more) message where
  family := sound.family
  toClient target := (sound.toClient target).imp_right Listed.later
  fromClient source :=
    ⟨(sound.fromClient source).1, (sound.fromClient source).2.imp_right Contacted.later⟩

theorem ClientRight.later {state : ClientState} (right : ClientRight setup sent state) :
    ClientRight setup (sent ++ more) state where
  keys entry member := (right.keys entry member).later
  phase := by
    have here := right.phase
    cases phase : state.phase with
    | answer pair rest =>
      rw [phase] at here
      exact ⟨here.1.later, here.2.later⟩
    | strayed =>
      rw [phase] at here
      exact here.elim
    | _ => trivial

theorem Right.later {addr : SockAddrIn} {node : Node} (right : Right setup sent addr node) :
    Right setup (sent ++ more) addr node := by
  cases node with
  | server users =>
    obtain ⟨same, few, contacted⟩ := right
    exact ⟨same, few, fun u member => ⟨(contacted u member).1.later, (contacted u member).2⟩⟩
  | client state => exact ⟨right.1, right.2.later⟩
  | outside => exact right

end Later

/-! ### The parsers on such datagrams -/

section Parsing

variable {setup : Setup} {sent : List (Message SockAddrIn Bytes)} {text : Bytes}

/-- A text without an item is read as it is, and has no item. -/
theorem split_plain (plain : Plain text) :
    readSock text = some text ∧ split (cstr text) (charByte ';') text.length = [] := by
  refine ⟨readSock_eq plain.noNul plain.short, ?_⟩
  have whole : (cstr text).bytes = text := (cstr_eq_iff text).mpr plain.noNul
  rw [split, splitMsg_bytes, whole, pieces, fields_clean plain.noItem, remnant_clean plain.noItem,
    fields_clean plain.noReturn]
  rfl

/-- **A peer list** is read as it is, and its items are the listed hosts. -/
theorem split_listed (listed : Listed setup sent text) :
    readSock text = some text ∧
      Pending setup sent (split (cstr text) (charByte ';') text.length) := by
  obtain ⟨addrs, contacted, few, rfl⟩ := listed
  have short := peerTexts_length_le addrs
  have noNul := peerTexts_noNul addrs
  have clean : ∀ text ∈ addrs.map peerText, charByte ';' ∉ text := by
    intro text member
    obtain ⟨addr, _, rfl⟩ := List.mem_map.mp member
    exact peerText_clean addr
  have all : (addrs.map peerText).take maxSplitted = addrs.map peerText :=
    List.take_of_length_le (by rw [List.length_map, maxSplitted]; omega)
  refine ⟨readSock_eq noNul (by rw [sbuf]; omega), addrs, contacted, ?_⟩
  rw [split, splitMsg_terminate clean ((cstr_eq_iff _).mpr noNul), all]

/-- What a client reads of a datagram. -/
theorem readSock_sound (sound : Plain text ∨ Listed setup sent text) :
    readSock text = some text ∧
      Pending setup sent (split (cstr text) (charByte ';') text.length) := by
  rcases sound with plain | listed
  · obtain ⟨read, none⟩ := split_plain plain
    exact ⟨read, [], (fun _ member => by cases member), none⟩
  · exact split_listed listed

end Parsing

/-! ### A turn of a client -/

section Clients

variable {setup : Setup} {sent : List (Message SockAddrIn Bytes)} {usersMap : UserMap}
  {timenow now : Int} {goes : Bool}

/-- What a client sends: one of its three texts, to the server or to a host that has contacted it. -/
def SendsRight (setup : Setup) (sent : List (Message SockAddrIn Bytes)) (sends : Sends) : Prop :=
  ∀ out ∈ sends, out.2 ∈ [getMyPeerInfo, getUserList, conUserData] ∧
    (out.1 = setup.server ∨ Contacted setup sent out.1)

/-- The keys of a map. -/
def KeysKnown (setup : Setup) (sent : List (Message SockAddrIn Bytes)) (usersMap : UserMap) : Prop :=
  ∀ entry ∈ usersMap.entries, Known setup sent entry.1

theorem adrOf_peerOf {addr : SockAddrIn} (family : addr.sinFamily = 2) :
    adrOf setup (peerOf addr) = addr := by
  rw [adrOf, peerOf, setup.inetAddr_inetNtoa, htons_htons, ← family]

theorem sendsRight_nil : SendsRight setup sent [] := fun _ member => by cases member

theorem finish_right (keys : KeysKnown setup sent usersMap) :
    ClientRight setup sent (finish timenow usersMap) where
  keys entry member := keys entry (List.mem_filter.mp member).1
  phase := trivial

theorem afterLast_right (keys : KeysKnown setup sent usersMap) :
    ClientRight setup sent (afterLast timenow usersMap) := by
  rw [afterLast]
  split
  · exact ⟨keys, trivial⟩
  · exact finish_right keys

theorem leaveTcp_right {connected : Bool} {state : ClientState} (right : ClientRight setup sent state) :
    ClientRight setup sent (leaveTcp connected timenow state) := by
  rw [leaveTcp]
  split
  · split
    · exact finish_right right.keys
    · exact ⟨right.keys, trivial⟩
  · exact right

theorem insert_known {key : PeerPair} {data : SockData} (keys : KeysKnown setup sent usersMap)
    (known : Known setup sent key) : KeysKnown setup sent (usersMap.insert key data) := by
  intro entry member
  rcases OrderedMap.mem_insert member with rfl | old
  · exact known
  · exact keys entry old

/-- **The loop over the addresses**: it pings hosts that have contacted the server. -/
theorem contact_right (keys : KeysKnown setup sent usersMap) {rest : List Bytes}
    (pending : Pending setup sent rest) :
    ClientRight setup sent (contact setup timenow goes usersMap rest).1 ∧
      SendsRight setup sent (contact setup timenow goes usersMap rest).2 := by
  obtain ⟨addrs, contacted, rfl⟩ := pending
  cases addrs with
  | nil => exact ⟨⟨keys, trivial⟩, sendsRight_nil⟩
  | cons addr addrs =>
    obtain ⟨here, family⟩ := contacted addr List.mem_cons_self
    have later := fun other member => contacted other (List.mem_cons_of_mem addr member)
    have known : Known setup sent (peerOf addr) := by
      obtain ⟨message, member, same, _⟩ := here
      exact Or.inr ⟨message, member, by rw [same]⟩
    have parsed : peerPair (peerText addr) = some (peerOf addr) := peerPair_peerText addr
    simp only [List.map_cons, contact, parsed]
    split
    · refine ⟨⟨keys, known, addrs, later, rfl⟩, fun out member => ?_⟩
      rw [List.mem_singleton.mp member, adrOf_peerOf family]
      exact ⟨by simp, Or.inr here⟩
    · exact ⟨finish_right keys, sendsRight_nil⟩

/-- The key of a sender is known. -/
theorem keyOf_known {message : Message SockAddrIn Bytes} (member : message ∈ sent) :
    Known setup sent (keyOf setup message.source) := by
  rw [keyOf]
  split
  · exact Or.inl rfl
  · exact Or.inr ⟨message, member, rfl⟩

/-- **A read of a client.** -/
theorem readClient_right {state : ClientState} (right : ClientRight setup sent state)
    {received : Option (Message SockAddrIn Bytes)}
    (arrived : ∀ message, received = some message →
      message ∈ sent ∧ (Plain message.text ∨ Listed setup sent message.text)) :
    ClientRight setup sent (readClient setup now timenow goes state received).1 ∧
      SendsRight setup sent (readClient setup now timenow goes state received).2 := by
  by_cases waits : state.phase.reads = true
  case neg =>
    simp only [readClient, if_neg waits]
    exact ⟨right, sendsRight_nil⟩
  simp only [readClient, if_pos waits]
  obtain ⟨phase, usersMap⟩ := state
  obtain ⟨keys, here⟩ := right
  cases received with
  | none =>
    cases phase with
    | answer pair rest => exact contact_right keys here.2
    | _ => exact ⟨finish_right keys, sendsRight_nil⟩
  | some message =>
    obtain ⟨member, text⟩ := arrived message rfl
    obtain ⟨read, pending⟩ := readSock_sound text
    simp only [read]
    cases phase with
    | list => exact contact_right keys pending
    | answer pair rest =>
      have known : KeysKnown setup sent
          (if message.text ≠ [] then usersMap.insert pair (sockData setup pair now) else usersMap) := by
        split
        · exact insert_known keys here.1
        · exact keys
      exact contact_right known here.2
    | last => exact ⟨afterLast_right (insert_known keys (keyOf_known member)), sendsRight_nil⟩
    | strayed => exact here.elim
    | _ => exact ⟨⟨keys, trivial⟩, sendsRight_nil⟩

theorem startRound_right {state : ClientState} (right : ClientRight setup sent state) :
    ClientRight setup sent (startRound setup timenow goes state).1 ∧
      SendsRight setup sent (startRound setup timenow goes state).2 := by
  obtain ⟨phase, usersMap⟩ := state
  cases phase with
  | idle =>
    simp only [startRound]
    split
    · refine ⟨⟨right.keys, trivial⟩, fun out member => ?_⟩
      rw [List.mem_singleton.mp member]
      exact ⟨by simp, Or.inl rfl⟩
    · exact ⟨finish_right right.keys, sendsRight_nil⟩
  | _ => exact ⟨right, sendsRight_nil⟩

/-- The texts of the clients have no item. -/
theorem plain_of_mem {text : Bytes} (member : text ∈ [getMyPeerInfo, getUserList, conUserData]) :
    Plain text := by
  have all : ∀ text ∈ [getMyPeerInfo, getUserList, conUserData], (0 : Byte) ∉ text ∧
      charByte ';' ∉ text ∧ carriageReturn ∉ text ∧ text.length < sbuf := by decide
  obtain ⟨noNul, noItem, noReturn, short⟩ := all text member
  exact ⟨noNul, noItem, noReturn, short⟩

/-- **What a client sends is sound.** -/
theorem outgoing_sound {node : SockAddrIn} {more : List (Message SockAddrIn Bytes)} {sends : Sends}
    (family : node.sinFamily = 2) (sendsRight : SendsRight setup sent sends) :
    ∀ message ∈ outgoing node sends, Sound setup (sent ++ more) message := by
  intro message member
  obtain ⟨out, isOut, rfl⟩ := List.mem_map.mp member
  obtain ⟨text, target⟩ := sendsRight out isOut
  exact ⟨family, fun _ => Or.inl (plain_of_mem text), fun _ => ⟨text, target.imp_right Contacted.later⟩⟩

end Clients

/-! ### A turn of the server -/

section Server

variable {setup : Setup} {sent : List (Message SockAddrIn Bytes)} {users : List User} {d : Datagram}

/-- The echo reply to a text of a client has no item. -/
theorem plain_echo (text : d.text ∈ [getMyPeerInfo, getUserList, conUserData]) :
    (receive users d).echo = some (echoText d) ∧ Plain (echoText d) := by
  have all : ∀ text ∈ [getMyPeerInfo, getUserList, conUserData], (cstr text).bytes.length ≤ 14 ∧
      charByte ';' ∉ (cstr text).bytes ∧ carriageReturn ∉ (cstr text).bytes := by decide
  obtain ⟨short, noItem, noReturn⟩ := all d.text text
  have peer := peerText_length d.sender
  have texts : (ascii "[").length = 1 ∧ (ascii "]: ").length = 3 ∧ (ascii "\n").length = 1 := by decide
  have fits : (echoText d).length < 256 := by
    simp only [echoText, List.length_append]
    omega
  refine ⟨echo_eq users fits, echoText_noNul d, ?_, ?_, by rw [sbuf]; omega⟩
  · simp only [echoText, List.mem_append, not_or]
    exact ⟨⟨⟨⟨by decide, peerText_clean _⟩, by decide⟩, noItem⟩, by decide⟩
  · have address : carriageReturn ∉ peerText d.sender := by
      rw [peerText, List.mem_append, List.mem_cons, not_or, not_or]
      exact ⟨notMem_inetNtoa (by decide) (by decide) _, by decide, notMem_decimal (by decide) _⟩
    simp only [echoText, List.mem_append, not_or]
    exact ⟨⟨⟨⟨by decide, address⟩, by decide⟩, noReturn⟩, by decide⟩

/-- **The registry stays one of hosts that have contacted the server.** -/
theorem users_right (few : users.length ≤ 11)
    (contacted : ∀ u ∈ users, Contacted setup sent u.addr ∧ u.addr.sinFamily = 2)
    (sender : Contacted setup sent d.sender ∧ d.sender.sinFamily = 2) :
    (receive users d).users.length ≤ 11 ∧
      ∀ u ∈ (receive users d).users, Contacted setup sent u.addr ∧ u.addr.sinFamily = 2 := by
  obtain ⟨kept, added, shape, survived, bounded, new⟩ := users_split users d
  have keptRight : ∀ u ∈ kept, Contacted setup sent u.addr ∧ u.addr.sinFamily = 2 :=
    fun u member => contacted u ((delByPing_sublist _ _).subset (survived.subset member))
  rw [shape]
  rcases new with rfl | ⟨_, room, rfl⟩
  · rw [List.append_nil]
    exact ⟨by omega, keptRight⟩
  · refine ⟨by rw [List.length_append, List.length_singleton]; omega, fun u member => ?_⟩
    rcases List.mem_append.mp member with old | isNew
    · exact keptRight u old
    · rwa [List.mem_singleton.mp isNew]

/-- **The peer list names such hosts.** -/
theorem list_listed (few : users.length ≤ 11)
    (contacted : ∀ u ∈ users, Contacted setup sent u.addr ∧ u.addr.sinFamily = 2) :
    Listed setup sent (receive users d).list := by
  have fewer := (delByPing_sublist d.timenow users).length_le
  refine ⟨(delByPing d.timenow users).map User.addr, fun addr member => ?_, ?_, ?_⟩
  · obtain ⟨u, survives, rfl⟩ := List.mem_map.mp member
    exact contacted u ((delByPing_sublist _ _).subset survives)
  · rw [List.length_map]
    omega
  · rw [receive_list, List.map_map]
    rfl

end Server

/-! ### The system -/

section System

variable {setup : Setup}

/-- A turn in which nothing happens. -/
theorem nothing_right {sent : List (Message SockAddrIn Bytes)} {node : SockAddrIn} {state : Node}
    (right : Right setup sent node state) :
    Right setup (sent ++ outgoing node []) node state ∧
      ∀ message ∈ outgoing node ([] : Sends), Sound setup (sent ++ outgoing node []) message :=
  ⟨right.later, fun _ member => by cases member⟩

/-- What a client does is right if it is so for the client. -/
theorem client_turn {sent : List (Message SockAddrIn Bytes)} {node : SockAddrIn}
    {next : ClientState × Sends} (isClient : node ∈ setup.clients) (family : node.sinFamily = 2)
    (right : ClientRight setup sent next.1 ∧ SendsRight setup sent next.2) :
    Right setup (sent ++ outgoing node next.2) node (.client next.1) ∧
      ∀ message ∈ outgoing node next.2, Sound setup (sent ++ outgoing node next.2) message :=
  ⟨⟨isClient, right.1.later⟩, outgoing_sound family right.2⟩

/-- **Every turn** keeps the nodes right and the datagrams sound. -/
theorem act_keeps : Keeps (act setup) (Sound setup) (Right setup) Permitted where
  soundLater _ _ _ sound := sound.later
  rightLater _ _ _ _ right := right.later
  acts := by
    intro sent node state received input right permitted arrived
    cases state with
    | server users =>
      obtain ⟨isServer, few, contacted⟩ := right
      cases received with
      | none => cases input <;> exact nothing_right ⟨isServer, few, contacted⟩
      | some message =>
        cases input with
        | serve timenow pingnow =>
          obtain ⟨member, target, sound⟩ := arrived message rfl
          let d : Datagram := ⟨message.source, message.text, timenow, pingnow⟩
          have sender : Contacted setup sent d.sender := ⟨message, member, rfl, target.trans isServer⟩
          obtain ⟨fewer, registered⟩ := users_right few contacted ⟨sender, sound.family⟩
          refine ⟨⟨isServer, fewer, fun u isUser => ?_⟩, fun reply isReply => ?_⟩
          · exact ⟨(registered u isUser).1.later, (registered u isUser).2⟩
          · obtain ⟨out, isOut, rfl⟩ := List.mem_map.mp isReply
            obtain ⟨text, isText, rfl⟩ := List.mem_map.mp isOut
            refine ⟨permitted.1, fun toClient => ?_, fun fromClient => ?_⟩
            · obtain ⟨echo, plain⟩ := @plain_echo users d (sound.fromClient toClient).1
              rcases List.mem_append.mp isText with isEcho | isList
              · rw [echo, Option.toList_some, List.mem_singleton] at isEcho
                exact Or.inl (isEcho ▸ plain)
              · rw [List.mem_singleton.mp isList]
                exact Or.inr (list_listed few contacted).later
            · exact absurd (isServer ▸ fromClient) setup.apart
        | _ => exact nothing_right ⟨isServer, few, contacted⟩
    | client state =>
      obtain ⟨isClient, clientRight⟩ := right
      have reads : ∀ message, received = some message →
          message ∈ sent ∧ (Plain message.text ∨ Listed setup sent message.text) := by
        intro message same
        obtain ⟨member, target, sound⟩ := arrived message same
        exact ⟨member, sound.toClient (target ▸ isClient)⟩
      cases input with
      | read now timenow goes =>
        cases received <;> exact client_turn isClient permitted.1 (readClient_right clientRight reads)
      | hello =>
        cases received with
        | none =>
          have ping : SendsRight setup sent [(setup.server, getMyPeerInfo)] := fun out member => by
            rw [List.mem_singleton.mp member]
            exact ⟨by simp, Or.inl rfl⟩
          exact @client_turn setup sent node (state, _) isClient permitted.1 ⟨clientRight, ping⟩
        | some message => exact nothing_right ⟨isClient, clientRight⟩
      | round timenow goes =>
        cases received with
        | none => exact client_turn isClient permitted.1 (startRound_right clientRight)
        | some message => exact nothing_right ⟨isClient, clientRight⟩
      | tcpDone timenow =>
        cases received with
        | none =>
          exact @client_turn setup sent node (leaveTcp (setup.tcp node) timenow state, []) isClient
            permitted.1 ⟨leaveTcp_right clientRight, sendsRight_nil⟩
        | some message => exact nothing_right ⟨isClient, clientRight⟩
      | _ => cases received <;> exact nothing_right ⟨isClient, clientRight⟩
    | outside =>
      cases input with
      | outside text =>
        cases received with
        | none =>
          refine ⟨right, fun message member => ?_⟩
          obtain rfl := List.mem_singleton.mp member
          exact ⟨permitted.1, fun toClient => absurd toClient setup.apart,
            fun fromClient => absurd fromClient right.1⟩
        | some message => exact nothing_right right
      | _ => cases received <;> exact nothing_right right

theorem start_holds : Holds (Sound setup) (Right setup) (start setup) where
  sound message member := by cases member
  right node := by
    simp only [start]
    split
    · next same => exact ⟨same, Nat.zero_le _, fun u member => by cases member⟩
    · next other =>
      split
      · next isClient => exact ⟨isClient, (fun entry member => by cases member), trivial⟩
      · next outsider => exact ⟨outsider, other⟩

/-- The steps of a run: what arrives was sent, and the other hosts send what fits. -/
def Run (setup : Setup) (events : List (Event SockAddrIn Bytes Input)) : Prop :=
  Runs.EveryStep (step (act setup))
    (fun world event => Possible world event ∧ Permitted event.node event.input) (start setup) events

/-- The system after a run. -/
def after (setup : Setup) (events : List (Event SockAddrIn Bytes Input)) :
    World SockAddrIn Bytes Node :=
  Runs.run (step (act setup)) (start setup) events

theorem after_holds {events : List (Event SockAddrIn Bytes Input)} (run : Run setup events) :
    Holds (Sound setup) (Right setup) (after setup events) :=
  run_keeps act_keeps start_holds run

/-- **What the clients know and do.** -/
structure Safe (setup : Setup) (world : World SockAddrIn Bytes Node) : Prop where
  /-- What it was told about the server, or the address of a host that has sent something. -/
  keys : ∀ addr state, world.state addr = .client state → ∀ entry ∈ state.usersMap.entries,
    entry.1 = setup.host ∨ ∃ message ∈ world.sent, entry.1 = peerOf message.source
  /-- No text is read past the end of its buffer. -/
  inside : ∀ addr state, world.state addr = .client state → state.phase ≠ .strayed
  /-- A client sends to the server, and to hosts that have contacted it. -/
  pings : ∀ message ∈ world.sent, message.source ∈ setup.clients → message.target = setup.server ∨
    ∃ contact ∈ world.sent, contact.source = message.target ∧ contact.target = setup.server
  /-- So does the server. -/
  registry : ∀ addr users, world.state addr = .server users → ∀ u ∈ users,
    ∃ contact ∈ world.sent, contact.source = u.addr ∧ contact.target = setup.server

end System

/-! ### A run -/

/-- `inet_addr` of a dotted address. -/
def dotted (text : Bytes) : UInt32 :=
  match fields (charByte '.') (text ++ [charByte '.']) with
  | [a, b, c, d] =>
    UInt32.ofNat (digitsValue a + 256 * (digitsValue b + 256 * (digitsValue c + 256 * digitsValue d)))
  | _ => 0xffffffff

theorem dotted_inetNtoa (sAddr : UInt32) : dotted (inetNtoa sAddr) = sAddr := by
  have shape : inetNtoa sAddr ++ [charByte '.'] = terminate (charByte '.')
      [decimal (addrByte sAddr 0), decimal (addrByte sAddr 1), decimal (addrByte sAddr 2),
        decimal (addrByte sAddr 3)] ++ [] := by
    simp [inetNtoa, terminate]
  have clean : ∀ text ∈ [decimal (addrByte sAddr 0), decimal (addrByte sAddr 1),
      decimal (addrByte sAddr 2), decimal (addrByte sAddr 3)], charByte '.' ∉ text := by
    simp only [List.forall_mem_cons]
    have part : ∀ n, charByte '.' ∉ decimal n := notMem_decimal (by decide)
    exact ⟨part _, part _, part _, part _, fun _ member => by cases member⟩
  have value : ∀ n, digitsValue (decimal n) = n := by
    intro n
    have read := @digitsValue_decimal n [] fun b head => by cases head
    rwa [List.append_nil] at read
  rw [dotted, shape, fields_terminate clean List.not_mem_nil]
  simp only [value]
  apply UInt32.toNat_inj.mp
  have bound := sAddr.toNat_lt
  rw [UInt32.toNat_ofNat']
  simp only [addrByte, Nat.reducePow]
  omega

/-- A server and a client on one host. -/
def sampleSetup : Setup where
  server := ⟨2, 0xad0c, 0x0100007f⟩
  clients := [⟨2, 1, 0x0100007f⟩]
  host := (ascii "127.0.0.1", 3245)
  tcp _ := true
  inetAddr := dotted
  apart := by decide
  inetAddr_inetNtoa := dotted_inetNtoa

/-- The client asks, and reads the echo reply three times over. -/
def sampleEvents : List (Event SockAddrIn Bytes Input) :=
  let client : SockAddrIn := ⟨2, 1, 0x0100007f⟩
  let request : Message SockAddrIn Bytes := ⟨client, sampleSetup.server, getUserList⟩
  let reply : Message SockAddrIn Bytes :=
    ⟨sampleSetup.server, client, ascii "[127.0.0.1:256]: getuserlist\n\n"⟩
  [⟨client, none, .round 0 true⟩, ⟨sampleSetup.server, some request, .serve 0 0⟩,
    ⟨client, some reply, .read 0 0 true⟩, ⟨client, some reply, .read 0 0 true⟩,
    ⟨client, some reply, .read 0 0 true⟩]

end Bacteria.Client
