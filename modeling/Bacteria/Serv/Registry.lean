/-
**The UDP branch of `serv_thread`: the peer registry.**

* `User` — `serv::user`; its constructor is the only way to one, so `ip` and `port` always are the
  text of `in`.
* `receive users d` — what the branch does with one datagram: the echo reply, the peer list reply and
  the new `users`.
* `receive_list`, `receive_users` — the two loops and the insertion in closed form.
* `Registry` — a `users` vector as the branch keeps it: addresses pairwise distinct, at most eleven
  entries. `Registry.receive` stays inside it, and `exists_registry` connects the vector after any
  datagrams to it.
* `receive_registered` — the invariant of every run.
-/

import Bacteria.Lib.Block
import Bacteria.Lib.Decimal
import Bacteria.Lib.EraseScan
import Bacteria.Lib.Fields
import Bacteria.Lib.Runs
import Mathlib.Data.List.Nodup

namespace Bacteria.Serv

open Clib

/-- The text of an address in a peer list and in an echo reply, `ip:port`. -/
def peerText (addr : SockAddrIn) : Bytes :=
  inetNtoa addr.sAddr ++ charByte ':' :: decimal (htons addr.sinPort).toNat

/-- `serv::user`; `addr` is its field `in`. -/
structure User where
  ip : Bytes
  port : UInt16
  addr : SockAddrIn
  lastPing : Int
  ipText : ip = inetNtoa addr.sAddr
  portNumber : port = htons addr.sinPort
deriving DecidableEq

/-- `user::operator==`. -/
def User.equals (u : User) (s : SockAddrIn) : Bool :=
  s.sinFamily == u.addr.sinFamily && s.sinPort == u.addr.sinPort && s.sAddr == u.addr.sAddr

/-- `user::updatePing`, `now` being what `time(NULL)` returns. -/
def User.updatePing (u : User) (now : Int) : User := { u with lastPing := now }

/-- The constructor of `user`. -/
def User.ofAddr (s : SockAddrIn) (now : Int) : User where
  ip := inetNtoa s.sAddr
  port := htons s.sinPort
  addr := ⟨s.sinFamily, s.sinPort, s.sAddr⟩
  lastPing := now
  ipText := rfl
  portNumber := rfl

/-- One datagram: its sender and bytes, what `time(NULL)` returns for the prune, and what it returns
later for the sender's ping. -/
structure Datagram where
  sender : SockAddrIn
  text : Bytes
  timenow : Int
  pingnow : Int
deriving DecidableEq

/-- The ping timeout in seconds. -/
def pingTimeout : Int := 120

/-- `timenow - u.lastPing > 120`. -/
def expired (timenow : Int) (u : User) : Bool := decide (timenow - u.lastPing > pingTimeout)

/-- The lambda `delByPing`. -/
def delByPing (timenow : Int) (users : List User) : List User :=
  EraseScan.eraseScan (expired timenow) users

/-- What the loop over `users` collects. -/
structure Listing where
  userExists : Bool
  list : Bytes

/-- The body of `for (auto u : users)`: `u` is a copy, and what is pinged here is the copy. -/
def listUser (clientAddr : SockAddrIn) (now : Int) (state : Listing) (u : User) : Listing :=
  let found := u.equals clientAddr
  let u := if found then u.updatePing now else u
  { userExists := state.userExists || found
    list := state.list ++ (u.ip ++ charByte ':' :: decimal u.port.toNat ++ [charByte ';']) }

/-- The text of `sprintf(tmp, "[%s:%d]: %s\n%c", ip, port, buf_udp, '\0')` before its NUL. -/
def echoText (d : Datagram) : Bytes :=
  ascii "[" ++ peerText d.sender ++ ascii "]: " ++ (cstr d.text).bytes ++ ascii "\n"

/-- The stack array `tmp` after the `sprintf`, which writes the NUL of `%c` and its own. -/
def tmp (d : Datagram) : Block := (Block.malloc 256).write 0 (echoText d ++ [0, 0])

/-- What one datagram leads to: the first reply (`none` when its text does not end inside `tmp`), the
second reply, and the registry. -/
structure Handled where
  echo : Option Bytes
  list : Bytes
  users : List User

/-- The UDP branch. -/
def receive (users : List User) (d : Datagram) : Handled :=
  let survivors := delByPing d.timenow users
  let listing := survivors.foldl (listUser d.sender d.pingnow) ⟨false, []⟩
  { echo := (tmp d).cString?
    list := listing.list
    users :=
      if listing.userExists then survivors
      else
        (if survivors.length > 10 then [] else survivors) ++ [User.ofAddr d.sender d.pingnow] }

/-- The registry after some datagrams, the server having started with none. -/
def registryAfter (datagrams : List Datagram) : List User :=
  Runs.run (fun users d => (receive users d).users) [] datagrams

section Branch

/-! ### The loops in closed form -/

@[simp] theorem ofAddr_addr (s : SockAddrIn) (now : Int) : (User.ofAddr s now).addr = s := rfl

theorem equals_iff (u : User) (s : SockAddrIn) : u.equals s = true ↔ u.addr = s := by
  obtain ⟨family, port, sAddr⟩ := s
  simp only [User.equals, Bool.and_eq_true, beq_iff_eq]
  constructor
  · rintro ⟨⟨rfl, rfl⟩, rfl⟩
    rfl
  · intro same
    rw [same]
    exact ⟨⟨rfl, rfl⟩, rfl⟩

/-- Prune keeps the entries that are at most two minutes old. -/
theorem delByPing_eq (timenow : Int) (users : List User) :
    delByPing timenow users = users.filter fun u => !expired timenow u :=
  EraseScan.eraseScan_eq_filter _ _

theorem mem_delByPing {timenow : Int} {users : List User} {u : User} :
    u ∈ delByPing timenow users ↔ u ∈ users ∧ timenow - u.lastPing ≤ pingTimeout := by
  rw [delByPing_eq, List.mem_filter, expired]
  simp

theorem delByPing_sublist (timenow : Int) (users : List User) :
    (delByPing timenow users).Sublist users := by
  rw [delByPing_eq]
  exact List.filter_sublist

theorem user_text (u : User) :
    u.ip ++ charByte ':' :: decimal u.port.toNat = peerText u.addr := by
  rw [u.ipText, u.portNumber, peerText]

/-- Pinging the copy changes nothing that is collected. -/
theorem listUser_eq (clientAddr : SockAddrIn) (now : Int) (state : Listing) (u : User) :
    listUser clientAddr now state u =
      ⟨state.userExists || u.equals clientAddr, state.list ++ (peerText u.addr ++ [charByte ';'])⟩ := by
  simp only [listUser, user_text]
  by_cases found : u.equals clientAddr = true
  · rw [if_pos found]
    rfl
  · rw [if_neg found]

/-- **The loop over the entries**: whether the sender is among them, and one item for each. -/
theorem foldl_listUser (clientAddr : SockAddrIn) (now : Int) (users : List User) (state : Listing) :
    users.foldl (listUser clientAddr now) state =
      ⟨state.userExists || users.any (·.equals clientAddr),
        state.list ++ terminate (charByte ';') (users.map fun u => peerText u.addr)⟩ := by
  induction users generalizing state with
  | nil => simp
  | cons u users ih =>
    rw [List.foldl_cons, listUser_eq, ih]
    simp [Bool.or_assoc]

/-- **The peer list names the survivors of the prune.** -/
theorem receive_list (users : List User) (d : Datagram) :
    (receive users d).list =
      terminate (charByte ';') ((delByPing d.timenow users).map fun u => peerText u.addr) := by
  simp only [receive, foldl_listUser, List.nil_append]

/-- The separator of a peer list occurs in no item. -/
theorem peerText_clean (addr : SockAddrIn) : charByte ';' ∉ peerText addr := by
  rw [peerText, List.mem_append, List.mem_cons, not_or, not_or]
  exact ⟨notMem_inetNtoa (by decide) (by decide) _, by decide, notMem_decimal (by decide) _⟩

/-- The items of a peer list are the survivors of the prune. -/
theorem list_fields (users : List User) (d : Datagram) :
    fields (charByte ';') (receive users d).list =
      (delByPing d.timenow users).map fun u => peerText u.addr := by
  rw [receive_list, ← List.append_nil (terminate _ _)]
  refine fields_terminate (fun text member => ?_) List.not_mem_nil
  obtain ⟨u, _, rfl⟩ := List.mem_map.mp member
  exact peerText_clean u.addr

/-- **The registry after a datagram.** -/
theorem receive_users (users : List User) (d : Datagram) :
    (receive users d).users =
      if ∃ u ∈ delByPing d.timenow users, u.addr = d.sender then delByPing d.timenow users
      else (if (delByPing d.timenow users).length > 10 then [] else delByPing d.timenow users) ++
        [User.ofAddr d.sender d.pingnow] := by
  have found : (delByPing d.timenow users).any (·.equals d.sender) = true ↔
      ∃ u ∈ delByPing d.timenow users, u.addr = d.sender := by
    simp only [List.any_eq_true, equals_iff]
  simp only [receive, foldl_listUser, Bool.false_or, found]

/-- The sender is registered afterwards. -/
theorem sender_registered (users : List User) (d : Datagram) :
    ∃ u ∈ (receive users d).users, u.addr = d.sender := by
  rw [receive_users]
  by_cases found : ∃ u ∈ delByPing d.timenow users, u.addr = d.sender
  · rw [if_pos found]
    exact found
  · rw [if_neg found]
    exact ⟨_, List.mem_append_right _ List.mem_cons_self, ofAddr_addr _ _⟩

/-- What is in the registry afterwards: entries that survived the prune, and an entry for the sender
when there was none. -/
theorem users_split (users : List User) (d : Datagram) :
    ∃ kept added, (receive users d).users = kept ++ added ∧
      kept.Sublist (delByPing d.timenow users) ∧ kept.length ≤ max 10 users.length ∧
      (added = [] ∨ (∀ u ∈ kept, u.addr ≠ d.sender) ∧ kept.length ≤ 10 ∧
        added = [User.ofAddr d.sender d.pingnow]) := by
  have fewer := (delByPing_sublist d.timenow users).length_le
  rw [receive_users]
  by_cases found : ∃ u ∈ delByPing d.timenow users, u.addr = d.sender
  · refine ⟨delByPing d.timenow users, [], ?_, List.Sublist.refl _, ?_, Or.inl rfl⟩
    · rw [if_pos found, List.append_nil]
    · omega
  · rw [if_neg found]
    by_cases full : (delByPing d.timenow users).length > 10
    · refine ⟨[], _, by rw [if_pos full], List.nil_sublist _, Nat.zero_le _, Or.inr ⟨?_, ?_, rfl⟩⟩
      · intro u member
        cases member
      · exact Nat.zero_le _
    · refine ⟨_, _, by rw [if_neg full], List.Sublist.refl _, by omega, Or.inr ⟨?_, ?_, rfl⟩⟩
      · exact fun u member same => found ⟨u, member, same⟩
      · omega

end Branch

/-! ### The registry as an invariant -/

section Registry

/-- A `users` vector as the UDP branch keeps it. -/
structure Registry where
  users : List User
  distinct : (users.map User.addr).Nodup
  few : users.length ≤ 11

/-- The server starts without peers. -/
def Registry.empty : Registry := ⟨[], List.nodup_nil, Nat.zero_le _⟩

theorem receive_distinct (registry : Registry) (d : Datagram) :
    ((receive registry.users d).users.map User.addr).Nodup := by
  obtain ⟨kept, added, shape, survived, _, new⟩ := users_split registry.users d
  have keptDistinct : (kept.map User.addr).Nodup :=
    ((survived.trans (delByPing_sublist _ _)).map _).nodup registry.distinct
  rcases new with rfl | ⟨others, _, rfl⟩
  · rwa [shape, List.append_nil]
  · rw [shape, List.map_append, List.map_singleton, ofAddr_addr]
    refine List.nodup_append.mpr ⟨keptDistinct, List.nodup_singleton _, ?_⟩
    intro addr inKept other isSender same
    obtain ⟨u, member, rfl⟩ := List.mem_map.mp inKept
    exact others u member (same.trans (List.mem_singleton.mp isSender))

theorem receive_few (registry : Registry) (d : Datagram) :
    (receive registry.users d).users.length ≤ 11 := by
  obtain ⟨kept, added, shape, _, bounded, new⟩ := users_split registry.users d
  have few := registry.few
  rcases new with rfl | ⟨_, room, rfl⟩
  · rw [shape, List.append_nil]
    omega
  · rw [shape, List.length_append, List.length_singleton]
    omega

/-- The UDP branch on registries. -/
def Registry.receive (registry : Registry) (d : Datagram) : Registry where
  users := (Serv.receive registry.users d).users
  distinct := receive_distinct registry d
  few := receive_few registry d

/-- **The vector after any datagrams is a registry.** -/
theorem exists_registry (datagrams : List Datagram) :
    ∃ registry : Registry, registry.users = registryAfter datagrams := by
  refine Runs.run_induction _ (fun users => ∃ registry : Registry, registry.users = users)
    ?_ ⟨Registry.empty, rfl⟩ datagrams
  rintro _ d ⟨registry, rfl⟩
  exact ⟨registry.receive d, rfl⟩

/-- What holds after a datagram `d` that found the registry as `users`. -/
structure Registered (users : List User) (d : Datagram) (handled : Handled) : Prop where
  /-- No two entries have the same family, port and address. -/
  distinct : (handled.users.map User.addr).Nodup
  nonempty : 1 ≤ handled.users.length
  few : handled.users.length ≤ 11
  sender : ∃ u ∈ handled.users, u.addr = d.sender
  /-- Entries are kept, in their order, or made for the sender; those kept are fresh. -/
  kept : ∃ kept added, handled.users = kept ++ added ∧ kept.Sublist users ∧
    (∀ u ∈ kept, d.timenow - u.lastPing ≤ pingTimeout) ∧
    ∀ u ∈ added, u = User.ofAddr d.sender d.pingnow
  /-- The survivors of the prune, each once and in the order of registration. -/
  survivors : (delByPing d.timenow users).Sublist users ∧
    ((delByPing d.timenow users).map User.addr).Nodup
  list : handled.list =
    terminate (charByte ';') ((delByPing d.timenow users).map fun u => peerText u.addr)

/-- **The registry invariant**, after every datagram of every run. -/
theorem receive_registered (before : List Datagram) (d : Datagram) :
    Registered (registryAfter before) d (receive (registryAfter before) d) := by
  obtain ⟨registry, users⟩ := exists_registry before
  rw [← users]
  have sender := sender_registered registry.users d
  obtain ⟨kept, added, shape, survived, _, new⟩ := users_split registry.users d
  have sublist := delByPing_sublist d.timenow registry.users
  refine {
    distinct := receive_distinct registry d
    nonempty := ?_
    few := receive_few registry d
    sender
    kept := ⟨kept, added, shape, survived.trans sublist, ?_, ?_⟩
    survivors := ⟨sublist, (sublist.map _).nodup registry.distinct⟩
    list := receive_list registry.users d }
  · obtain ⟨u, member, _⟩ := sender
    exact List.length_pos_of_mem member
  · exact fun u member => (mem_delByPing.mp (survived.subset member)).2
  · intro u member
    rcases new with rfl | ⟨_, _, rfl⟩
    · cases member
    · exact List.mem_singleton.mp member

end Registry

end Bacteria.Serv
