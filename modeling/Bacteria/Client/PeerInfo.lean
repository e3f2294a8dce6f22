/-
**The UDP client of src/client/main.cpp: `self_bind` and `getUsers`.**

* `readSock` — `sock_data::read`: a datagram as the C string of a zeroed 1024-byte buffer.
* `split` — `split::split` of src/net/utils.cpp, the wrapper of `split_msg`.
* `selfBind`, `getUsers` — what the client reads off the server's two kinds of reply; `none` where
  `substr` throws.
* `selfBind_echoText`, `getUsers_peerTexts` — both parsers on the texts the server formats.
* `client_decodes` — on every reachable registry the client gets back what the server put in.
-/

import Bacteria.Lib.StdString
import Bacteria.Net.SplitMsg
import Bacteria.Serv.Registry

namespace Bacteria.Client

open Clib Bacteria.Net Bacteria.Serv

/-- The default `sbuf` of `read`. -/
def sbuf : Nat := 1024

/-- `sock_data::read(sbuf).first`: `bzero` the buffer, receive at most `sbuf` bytes into it, and take
the C string there; `none` when nothing terminates it inside the buffer. -/
def readSock (datagram : Bytes) : Option Bytes :=
  (((Block.malloc sbuf).bzero sbuf).write 0 (datagram.take sbuf)).cString?

/-- `split::split(buf, schar, bufsize)`. -/
def split (buf : CString) (schar : Byte) (bufsize : Nat) : List Bytes :=
  let bufsize := if bufsize = 0 then buf.strlen else bufsize
  (splitMsg buf schar bufsize).map CString.bytes

/-- What `self_bind` reads off the echo reply, and the address it binds to. -/
structure SelfInfo where
  sIp : Bytes
  sPort : Bytes
  mAddr : SockAddrIn

/-- `self_bind` on the bytes received; `inetAddr` is the C library's `inet_addr`, 2 is `AF_INET`. -/
def selfBind (inetAddr : Bytes → UInt32) (t : Bytes) : Option SelfInfo := do
  let sIp ← substr t 1 (sizeSub (find t (charByte ':')) 1)
  let sPort ← substr t (sizeAdd (find t (charByte ':')) 1)
    (sizeSub (find t (charByte ']')) (sizeAdd (find t (charByte ':')) 1))
  some ⟨sIp, sPort, ⟨2, htons (UInt16.ofInt (atoi sPort)), inetAddr sIp⟩⟩

/-- The pair `getUsers` makes of one list item. -/
def peerPair (address : Bytes) : Option (Bytes × UInt16) := do
  let ip ← substr address 0 (find address (charByte ':'))
  let port ← substr address (sizeAdd (find address (charByte ':')) 1) address.length
  some (ip, UInt16.ofInt (atoi port))

/-- The pairs `getUsers` makes of the peer list, in the order it contacts them. -/
def getUsers (userListData : Bytes) : Option (List (Bytes × UInt16)) :=
  (split (cstr userListData) (charByte ';') userListData.length).mapM peerPair

section Texts

/-! ### The two parsers on the server's texts -/

theorem readSock_eq {datagram : Bytes} (clean : (0 : Byte) ∉ datagram)
    (room : datagram.length < sbuf) : readSock datagram = some datagram := by
  rw [readSock, List.take_of_length_le (le_of_lt room)]
  exact Block.cString?_of_zeroed clean room

theorem ofInt_toNat (n : UInt16) : UInt16.ofInt (n.toNat : Int) = n := by
  apply UInt16.toNat_inj.mp
  have bound : (n.toNat : Int) % 2 ^ 16 = n.toNat :=
    Int.emod_eq_of_lt (Int.natCast_nonneg _) (by exact_mod_cast n.toNat_lt)
  rw [UInt16.ofInt, bound, Int.toNat_natCast, UInt16.toNat_ofNat', Nat.mod_eq_of_lt n.toNat_lt]

theorem atoi_port (port : UInt16) : atoi (decimal port.toNat) = port.toNat := by
  have read := @atoi_decimal port.toNat [] (by simp)
  rwa [List.append_nil] at read

theorem decimal_port_length (port : UInt16) : (decimal port.toNat).length ≤ 5 :=
  decimal_length_le (by decide) (lt_trans port.toNat_lt (by decide))

theorem peerText_length (addr : SockAddrIn) : (peerText addr).length ≤ 21 := by
  have ip := inetNtoa_length_le addr.sAddr
  have port := decimal_port_length (htons addr.sinPort)
  rw [peerText, List.length_append, List.length_cons]
  omega

theorem peerText_noNul (addr : SockAddrIn) : (0 : Byte) ∉ peerText addr := by
  rw [peerText, List.mem_append, List.mem_cons, not_or, not_or]
  exact ⟨notMem_inetNtoa (by decide) (by decide) _, by decide, notMem_decimal (by decide) _⟩

theorem echoText_noNul (d : Datagram) : (0 : Byte) ∉ echoText d := by
  simp only [echoText, List.mem_append, not_or]
  exact ⟨⟨⟨⟨by decide, peerText_noNul _⟩, by decide⟩, (cstr d.text).noNul⟩, by decide⟩

/-- An echo reply that fits the server's buffer is sent whole. -/
theorem echo_eq (users : List User) {d : Datagram} (fits : (echoText d).length < 256) :
    (receive users d).echo = some (echoText d) := by
  have twice : echoText d ++ [0, 0] = echoText d ++ [0] ++ [0] := by simp
  have written : (tmp d).Holds 0 (echoText d ++ [0] ++ [0]) := by
    rw [← twice]
    exact Block.holds_write _ _ _
  have sent : (receive users d).echo = (tmp d).cString? := by rw [receive]
  rw [sent]
  exact Block.cString?_of_holds (echoText_noNul d) written.left fits

/-- **`self_bind` on an echo reply**: the sender's address text and port. -/
theorem selfBind_echoText (inetAddr : Bytes → UInt32) {d : Datagram}
    (fits : (echoText d).length < 256) :
    selfBind inetAddr (echoText d) =
      some ⟨inetNtoa d.sender.sAddr, decimal (htons d.sender.sinPort).toNat,
        ⟨2, d.sender.sinPort, inetAddr (inetNtoa d.sender.sAddr)⟩⟩ := by
  let ip := inetNtoa d.sender.sAddr
  let port := decimal (htons d.sender.sinPort).toNat
  let rest := ascii " " ++ (cstr d.text).bytes ++ ascii "\n"
  have shape : echoText d = ascii "[" ++ (ip ++ charByte ':' :: (port ++ charByte ']' ::
      (charByte ':' :: rest))) := by
    simp [echoText, peerText, ip, port, rest, ascii, charByte]
  have size := congrArg List.length shape
  simp only [List.length_append, List.length_cons] at size
  have bracket : (ascii "[").length = 1 := rfl
  have colonClean : charByte ':' ∉ ascii "[" ++ ip := by
    rw [List.mem_append, not_or]
    exact ⟨by decide, notMem_inetNtoa (by decide) (by decide) _⟩
  have colon : find (echoText d) (charByte ':') = 1 + ip.length := by
    rw [shape, ← List.append_assoc, find_append colonClean, List.length_append, bracket]
  have endClean : charByte ']' ∉ ascii "[" ++ (ip ++ charByte ':' :: port) := by
    simp only [List.mem_append, List.mem_cons, not_or]
    exact ⟨by decide, notMem_inetNtoa (by decide) (by decide) _, by decide,
      notMem_decimal (by decide) _⟩
  have close : find (echoText d) (charByte ']') = 1 + (ip.length + (port.length + 1)) := by
    have regroup : echoText d = ascii "[" ++ (ip ++ charByte ':' :: port) ++ charByte ']' ::
        (charByte ':' :: rest) := by
      rw [shape]
      simp
    rw [regroup, find_append endClean]
    simp only [List.length_append, List.length_cons, bracket]
  have ipPart : substr (echoText d) 1 (sizeSub (1 + ip.length) 1) = some ip := by
    refine substr_between shape bracket.symm ?_
    rw [sizeSub_of_le (by omega) (by omega)]
    omega
  have portStart : sizeAdd (1 + ip.length) 1 = 1 + ip.length + 1 := sizeAdd_of_lt (by omega)
  have portPart : substr (echoText d) (1 + ip.length + 1)
      (sizeSub (1 + (ip.length + (port.length + 1))) (1 + ip.length + 1)) = some port := by
    have regroup : echoText d = ascii "[" ++ (ip ++ [charByte ':']) ++ (port ++ charByte ']' ::
        (charByte ':' :: rest)) := by
      rw [shape]
      simp
    refine substr_between regroup ?_ ?_
    · simp only [List.length_append, List.length_cons, List.length_nil, bracket]
      omega
    · rw [sizeSub_of_le (by omega) (by omega)]
      omega
  have number : UInt16.ofInt (atoi port) = htons d.sender.sinPort := by
    rw [atoi_port, ofInt_toNat]
  simp only [selfBind, colon, close, ipPart, portStart, portPart, Option.bind_eq_bind,
    Option.bind_some, number, htons_htons]
  rfl

/-- The same on the datagram as the client receives it. -/
theorem selfBind_received (inetAddr : Bytes → UInt32) {d : Datagram}
    (fits : (echoText d).length < 256) :
    (readSock (echoText d)).bind (selfBind inetAddr) =
      some ⟨inetNtoa d.sender.sAddr, decimal (htons d.sender.sinPort).toNat,
        ⟨2, d.sender.sinPort, inetAddr (inetNtoa d.sender.sAddr)⟩⟩ := by
  rw [readSock_eq (echoText_noNul d) (lt_trans fits (by decide)), Option.bind_some,
    selfBind_echoText inetAddr fits]

/-- **One list item**: its address text and port. -/
theorem peerPair_peerText (addr : SockAddrIn) :
    peerPair (peerText addr) = some (inetNtoa addr.sAddr, htons addr.sinPort) := by
  have ipBound := inetNtoa_length_le addr.sAddr
  have clean : charByte ':' ∉ inetNtoa addr.sAddr := notMem_inetNtoa (by decide) (by decide) _
  have colon : find (peerText addr) (charByte ':') = (inetNtoa addr.sAddr).length :=
    find_append clean _
  have ipPart : substr (peerText addr) 0 (inetNtoa addr.sAddr).length =
      some (inetNtoa addr.sAddr) :=
    @substr_between _ [] _ _ _ _ rfl rfl rfl
  have portStart : sizeAdd (inetNtoa addr.sAddr).length 1 = (inetNtoa addr.sAddr).length + 1 :=
    sizeAdd_of_lt (by omega)
  have portPart : substr (peerText addr) ((inetNtoa addr.sAddr).length + 1)
      (peerText addr).length = some (decimal (htons addr.sinPort).toNat) := by
    have shape : peerText addr = inetNtoa addr.sAddr ++ [charByte ':'] ++
        decimal (htons addr.sinPort).toNat := by
      simp [peerText]
    refine substr_rest shape ?_ ?_
    · rw [List.length_append, List.length_singleton]
    · rw [peerText, List.length_append, List.length_cons]
      omega
  simp only [peerPair, colon, ipPart, portStart, portPart, Option.bind_eq_bind, Option.bind_some,
    atoi_port, ofInt_toNat]

theorem mapM_peerPair (addrs : List SockAddrIn) :
    (addrs.map peerText).mapM peerPair =
      some (addrs.map fun addr => (inetNtoa addr.sAddr, htons addr.sinPort)) := by
  induction addrs with
  | nil => rfl
  | cons addr addrs ih =>
    rw [List.map_cons, List.mapM_cons, ih, peerPair_peerText]
    rfl

theorem peerTexts_noNul (addrs : List SockAddrIn) :
    (0 : Byte) ∉ terminate (charByte ';') (addrs.map peerText) := by
  simp only [terminate, List.mem_flatMap, List.mem_map, not_exists, not_and]
  rintro _ ⟨addr, _, rfl⟩ member
  rcases List.mem_append.mp member with inText | isEnd
  · exact peerText_noNul addr inText
  · exact absurd (List.mem_singleton.mp isEnd) (by decide)

/-- **`getUsers` on a peer list** of at most 120 entries: every entry, in order. -/
theorem getUsers_peerTexts {addrs : List SockAddrIn} (few : addrs.length ≤ maxSplitted) :
    getUsers (terminate (charByte ';') (addrs.map peerText)) =
      some (addrs.map fun addr => (inetNtoa addr.sAddr, htons addr.sinPort)) := by
  have clean : ∀ text ∈ addrs.map peerText, charByte ';' ∉ text := by
    intro text member
    obtain ⟨addr, _, rfl⟩ := List.mem_map.mp member
    exact peerText_clean addr
  have whole : (cstr (terminate (charByte ';') (addrs.map peerText))).bytes =
      terminate (charByte ';') (addrs.map peerText) := (cstr_eq_iff _).mpr (peerTexts_noNul addrs)
  have all : (addrs.map peerText).take maxSplitted = addrs.map peerText :=
    List.take_of_length_le (by rwa [List.length_map])
  rw [getUsers, split, splitMsg_terminate clean whole, all, mapM_peerPair]

/-- A peer list takes at most 22 bytes an entry. -/
theorem peerTexts_length_le (addrs : List SockAddrIn) :
    (terminate (charByte ';') (addrs.map peerText)).length ≤ 22 * addrs.length := by
  induction addrs with
  | nil => exact Nat.le_refl _
  | cons addr addrs ih =>
    have here := peerText_length addr
    rw [List.map_cons, terminate_cons, List.length_append, List.length_cons, List.length_cons]
    omega

end Texts

/-! ### The client against the server -/

/-- The request of `self_bind`. -/
def getMyPeerInfo : Bytes := ascii "getmypeerinfo\n"

/-- From the echo reply to `d`, `self_bind` gets the sender's address text and port. -/
def SelfDecoded (inetAddr : Bytes → UInt32) (users : List User) (d : Datagram) : Prop :=
  ∃ reply info, (receive users d).echo = some reply ∧
    (readSock reply).bind (selfBind inetAddr) = some info ∧
    info.sIp = inetNtoa d.sender.sAddr ∧ atoi info.sPort = (htons d.sender.sinPort).toNat ∧
    info.mAddr.sinPort = d.sender.sinPort

/-- The list reply to `d` fits the client's buffer and the splitter's cap, and `getUsers` gets the
address text and port of every listed entry, in order. -/
def PeersDecoded (users : List User) (d : Datagram) : Prop :=
  (receive users d).list.length < sbuf ∧
    (fields (charByte ';') (receive users d).list).length < maxSplitted ∧
    (readSock (receive users d).list).bind getUsers =
      some ((delByPing d.timenow users).map fun u => (u.ip, u.port))

/-- **The client decodes what the server encodes**, for every reachable registry and every sender. -/
theorem client_decodes (inetAddr : Bytes → UInt32) (before : List Datagram) (d : Datagram) :
    SelfDecoded inetAddr (registryAfter before) { d with text := getMyPeerInfo } ∧
      PeersDecoded (registryAfter before) d := by
  constructor
  · have size : (echoText { d with text := getMyPeerInfo }).length < 256 := by
      have peer := peerText_length d.sender
      have request : (cstr getMyPeerInfo).bytes.length = 14 := by decide
      simp only [echoText, List.length_append, request]
      have texts : (ascii "[").length = 1 ∧ (ascii "]: ").length = 3 ∧ (ascii "\n").length = 1 := by
        decide
      omega
    have echoed := echo_eq (registryAfter before) size
    have received := selfBind_received inetAddr size
    exact ⟨_, _, echoed, received, rfl, atoi_port (htons d.sender.sinPort), rfl⟩
  · obtain ⟨registry, users⟩ := exists_registry before
    have fewer := (delByPing_sublist d.timenow registry.users).length_le
    have few := registry.few
    have items : (delByPing d.timenow registry.users).map (fun u => peerText u.addr) =
        ((delByPing d.timenow registry.users).map User.addr).map peerText := by
      rw [List.map_map]
      rfl
    have listed := receive_list registry.users d
    rw [items] at listed
    have short : (receive registry.users d).list.length < sbuf := by
      have bound := peerTexts_length_le ((delByPing d.timenow registry.users).map User.addr)
      rw [List.length_map] at bound
      rw [listed, sbuf]
      omega
    rw [← users]
    refine ⟨short, ?_, ?_⟩
    · rw [list_fields, List.length_map, maxSplitted]
      omega
    · rw [readSock_eq (by rw [listed]; exact peerTexts_noNul _) short, Option.bind_some, listed,
        getUsers_peerTexts (by rw [List.length_map, maxSplitted]; omega), List.map_map]
      refine congrArg some (List.map_congr_left fun u _ => ?_)
      rw [Function.comp_apply, u.ipText, u.portNumber]

end Bacteria.Client
