/-
**A round of `getUsers`, from its first read to its end.**

* `Read` — what one `read` of a client got, and when; `reads` — one after the other.
* `heard`, `answered` — a read got a text that is not empty; the map with the peers for which one did.
* `reads_answers` — the loop over the addresses: each is pinged once, in order, whatever is received.
* `round_contacts` — the whole round, up to its end or to the part that uses TCP.
-/

import Bacteria.Client.Network

namespace Bacteria.Client

open Clib Bacteria.Net Bacteria.Serv Datagrams

/-- A `read` of a client; it is `inside` when the text ends inside the buffer. -/
structure Read where
  received : Option (Message SockAddrIn Bytes)
  now : Int
  timenow : Int
  inside : ∀ message, received = some message → (readSock message.text).isSome

/-- A text came, and it is not empty. -/
def Read.heard (read : Read) : Bool :=
  match read.received with
  | none => false
  | some message => readSock message.text ≠ some []

section Rounds

variable (setup : Setup)

/-- Several reads after a first step, and all that is sent. -/
def reads (begun : ClientState × Sends) : List Read → ClientState × Sends
  | [] => begun
  | read :: more =>
    let next := readClient setup read.now read.timenow true begun.1 read.received
    reads (next.1, begun.2 ++ next.2) more

/-- The peers for which something came, with the time it came. -/
def answered (usersMap : UserMap) (peers : List (PeerPair × Read)) : UserMap :=
  peers.foldl (fun usersMap peer =>
    if peer.2.heard then usersMap.insert peer.1 (sockData setup peer.1 peer.2.now) else usersMap) usersMap

/-- The last read: its sender is put into the map. -/
def heardLast (usersMap : UserMap) (read : Read) : UserMap :=
  match read.received with
  | none => usersMap
  | some message =>
    usersMap.insert (keyOf setup message.source) (sockData setup (keyOf setup message.source) read.now)

variable {setup} {usersMap : UserMap}

/-- One peer: the next address is contacted. -/
theorem readClient_answer (read : Read) (pair : PeerPair) (rest : List Bytes) :
    readClient setup read.now read.timenow true ⟨.answer pair rest, usersMap⟩ read.received =
      contact setup read.timenow true (answered setup usersMap [(pair, read)]) rest := by
  obtain ⟨received, now, timenow, inside⟩ := read
  cases received with
  | none => rfl
  | some message =>
    obtain ⟨text, ends⟩ := Option.isSome_iff_exists.mp (inside message rfl)
    have same : Read.heard ⟨some message, now, timenow, inside⟩ = decide (text ≠ []) := by
      simp [Read.heard, ends]
    simp only [readClient, Phase.reads, if_true, ends, readText, answered, List.foldl_cons,
      List.foldl_nil, same, decide_eq_true_eq]

/-- The last read: with more than three users the round goes on over TCP. -/
theorem readClient_last (last : Read) :
    readClient setup last.now last.timenow true ⟨.last, usersMap⟩ last.received =
      (if last.received.isSome ∧ 3 < (heardLast setup usersMap last).entries.length then
          ⟨.tcp, heardLast setup usersMap last⟩
        else finish last.timenow (heardLast setup usersMap last), []) := by
  obtain ⟨received, now, timenow, inside⟩ := last
  cases received with
  | none => rfl
  | some message =>
    obtain ⟨text, ends⟩ := Option.isSome_iff_exists.mp (inside message rfl)
    simp only [readClient, Phase.reads, if_true, ends, readText, afterLast, heardLast,
      Option.isSome_some, true_and, gt_iff_lt, Nat.lt_sub_iff_add_lt]

/-- The first address is pinged. -/
theorem contact_cons {addr : SockAddrIn} (family : addr.sinFamily = 2) (timenow : Int)
    (rest : List Bytes) :
    contact setup timenow true usersMap (peerText addr :: rest) =
      (⟨.answer (peerOf addr) rest, usersMap⟩, [(addr, conUserData)]) := by
  have parsed : peerPair (peerText addr) = some (peerOf addr) := peerPair_peerText addr
  simp only [contact, parsed, if_true, adrOf_peerOf family]

/-- The pings to these hosts. -/
def pings (addrs : List SockAddrIn) : Sends := addrs.map fun addr => (addr, conUserData)

/-- **The loop over the addresses**: each host is pinged once, in order, whatever is received. -/
theorem reads_answers {addrs : List SockAddrIn} (inet : ∀ addr ∈ addrs, addr.sinFamily = 2)
    {answers : List Read} (each : answers.length = addrs.length) (timenow : Int) (sends : Sends)
    (more : List Read) :
    let begun := contact setup timenow true usersMap (addrs.map peerText)
    reads setup (begun.1, sends ++ begun.2) (answers ++ more) =
      reads setup (⟨.last, answered setup usersMap ((addrs.map peerOf).zip answers)⟩,
        sends ++ pings addrs) more := by
  induction addrs generalizing answers usersMap timenow sends with
  | nil =>
    obtain rfl := List.length_eq_zero_iff.mp each
    rfl
  | cons addr addrs ih =>
    cases answers with
    | nil => cases each
    | cons answer answers =>
      have later := @ih (answered setup usersMap [(peerOf addr, answer)])
        (fun other member => inet other (List.mem_cons_of_mem _ member)) answers (Nat.succ.inj each)
        answer.timenow (sends ++ [(addr, conUserData)])
      simp only [List.map_cons, contact_cons (inet addr List.mem_cons_self), List.cons_append, reads,
        readClient_answer]
      rw [later, List.append_assoc]
      rfl

/-- **A round**: the client asks for the list and pings every listed host once, in order, whatever comes
meanwhile. What it knows then are the hosts for which something came in time and the sender of the last
datagram, and what it knew before. If that are more than three, and a last datagram came, it goes on over
TCP; otherwise the round ends with what is at most five seconds old. -/
theorem round_contacts (setup : Setup) (usersMap : UserMap) {addrs : List SockAddrIn}
    (inet : ∀ addr ∈ addrs, addr.sinFamily = 2) (few : addrs.length ≤ 11) (echo list last : Read)
    (echoed : echo.received.isSome) {source target : SockAddrIn}
    (listed : list.received = some ⟨source, target, terminate (charByte ';') (addrs.map peerText)⟩)
    {answers : List Read} (each : answers.length = addrs.length) (timenow : Int) :
    let known := heardLast setup (answered setup usersMap ((addrs.map peerOf).zip answers)) last
    reads setup (startRound setup timenow true ⟨.idle, usersMap⟩) (echo :: list :: (answers ++ [last])) =
      (if last.received.isSome ∧ 3 < known.entries.length then ⟨.tcp, known⟩
        else finish last.timenow known,
        (setup.server, getUserList) :: pings addrs) := by
  intro known
  obtain ⟨message, arrived⟩ := Option.isSome_iff_exists.mp echoed
  obtain ⟨text, ends⟩ := Option.isSome_iff_exists.mp (echo.inside message arrived)
  have noNul := peerTexts_noNul addrs
  have short := peerTexts_length_le addrs
  have whole : readSock (terminate (charByte ';') (addrs.map peerText)) =
      some (terminate (charByte ';') (addrs.map peerText)) :=
    readSock_eq noNul (by rw [sbuf]; omega)
  have items : split (cstr (terminate (charByte ';') (addrs.map peerText))) (charByte ';')
      (terminate (charByte ';') (addrs.map peerText)).length = addrs.map peerText := by
    have clean : ∀ text ∈ addrs.map peerText, charByte ';' ∉ text := by
      intro text member
      obtain ⟨addr, _, rfl⟩ := List.mem_map.mp member
      exact peerText_clean addr
    rw [split, splitMsg_terminate clean ((cstr_eq_iff _).mpr noNul)]
    exact List.take_of_length_le (by rw [List.length_map, maxSplitted]; omega)
  have loop := @reads_answers setup usersMap addrs inet answers each list.timenow
    [(setup.server, getUserList)] [last]
  simp only [reads, startRound, Phase.reads, if_true, readClient, arrived, ends, listed, whole, readText,
    items, List.append_nil]
  simp only at loop
  rw [loop]
  have behind : readClient setup last.now last.timenow true
      ⟨.last, answered setup usersMap ((addrs.map peerOf).zip answers)⟩ last.received =
        (if last.received.isSome ∧ 3 < known.entries.length then ⟨.tcp, known⟩
          else finish last.timenow known, []) := readClient_last last
  simp only [reads, behind, List.append_nil]
  rfl

end Rounds

/-- A read of a text of the server. -/
def sampleRead (text : Bytes) (clean : (0 : Byte) ∉ text) (room : text.length < sbuf) : Read where
  received := some ⟨sampleSetup.server, ⟨2, 1, 0x0100007f⟩, text⟩
  now := 0
  timenow := 0
  inside _ same := by rw [← Option.some.inj same, readSock_eq clean room]; rfl

/-- The client is the only one listed, and pings itself. -/
theorem round_alone :
    let client : SockAddrIn := ⟨2, 1, 0x0100007f⟩
    let ping := sampleRead conUserData (by decide) (by decide)
    let last := sampleRead [] (by decide) (by decide)
    let known := heardLast sampleSetup
      (answered sampleSetup ⟨[], .nil⟩ (([client].map peerOf).zip [ping])) last
    reads sampleSetup (startRound sampleSetup 0 true ⟨.idle, ⟨[], .nil⟩⟩)
        (sampleRead (ascii "[127.0.0.1:256]: getuserlist\n\n") (by decide) (by decide) ::
          sampleRead (ascii "127.0.0.1:256;") (by decide) (by decide) :: ([ping] ++ [last])) =
      (if last.received.isSome ∧ 3 < known.entries.length then ⟨.tcp, known⟩
        else finish last.timenow known,
        (sampleSetup.server, getUserList) :: pings [client]) :=
  round_contacts sampleSetup ⟨[], .nil⟩ (by decide) (by decide) _ _ _ rfl rfl rfl 0

end Bacteria.Client
