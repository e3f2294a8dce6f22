/-
**The two prunes by ping.**

The lambda `delByPing` of src/async_serv.cpp on the vector `users`, and `serv_data::delByPing` of
src/client/main.cpp on `users_map`.

* `SockData`, `UserMap` — what the client keeps of its peers.
* `serverTurn`, `clientTurn` — one turn of the `do` loop; `delByPing_returns` — the server's loop is the
  function `delByPing` of its model.
* `Prunes` — what a prune is for; `prunes` — both do it.
-/

import Bacteria.Lib.OrderedMap
import Bacteria.Serv.Registry

namespace Bacteria.Client

open Clib Bacteria.Serv Loops

/-- `peer_pair_t`. -/
abbrev PeerPair := Bytes × UInt16

/-- The `operator<` of `std::pair<std::string, uint16_t>`. -/
def PeerPair.lt (a b : PeerPair) : Prop := a.1 < b.1 ∨ (a.1 = b.1 ∧ a.2 < b.2)

/-- `sock_data`. -/
structure SockData where
  mContype : Nat
  mAdr : SockAddrIn
  lastPing : Int
  mPeerInfo : PeerPair

/-- `user_map`. -/
abbrev UserMap := OrderedMap PeerPair.lt SockData

/-- `timenow - it->second.lastPing > s`. -/
def SockData.expired (timenow s : Int) (data : SockData) : Bool :=
  decide (timenow - data.lastPing > s)

/-- One turn of the server's loop: `users.erase(it)` and `break`, or the end of the vector. -/
def serverTurn (timenow : Int) : List User → List User ⊕ List User :=
  EraseScan.eraseTurn (expired timenow)

/-- One turn of the client's loop: `users_map.erase(it)` and `break`, or the end of the map. -/
def clientTurn (timenow s : Int) : UserMap → UserMap ⊕ UserMap :=
  OrderedMap.eraseTurn fun entry => entry.2.expired timenow s

/-- **What a prune is for**: it ends, with what is to be kept and with nothing else, and so it does when
it runs again. -/
def Prunes {σ : Type} (turn : σ → σ ⊕ σ) (items kept : σ) : Prop :=
  (∀ result, Returns turn items result ↔ result = kept) ∧
    ∀ result, Returns turn kept result ↔ result = kept

section Pruning

variable {timenow s : Int}

/-- The loop of the server ends as the function of its model says. -/
theorem delByPing_returns (timenow : Int) (users : List User) :
    Returns (serverTurn timenow) users (delByPing timenow users) := by
  rw [serverTurn, EraseScan.returns_eraseTurn_iff, delByPing_eq]

/-- What is not expired, in the words of a limit. -/
theorem not_expired_iff (u : User) :
    (!expired timenow u) = decide (timenow - u.lastPing ≤ 120) := by
  rw [expired, pingTimeout, ← decide_not]
  exact decide_eq_decide.mpr Int.not_lt

theorem not_sockData_expired_iff (data : SockData) :
    (!data.expired timenow s) = decide (timenow - data.lastPing ≤ s) := by
  rw [SockData.expired, ← decide_not]
  exact decide_eq_decide.mpr Int.not_lt

theorem serverTurn_prunes (timenow : Int) (users : List User) :
    Prunes (serverTurn timenow) users
      (users.filter fun u => decide (timenow - u.lastPing ≤ 120)) := by
  simp only [← not_expired_iff]
  exact ⟨fun _ => EraseScan.returns_eraseTurn_iff, fun _ => EraseScan.returns_eraseTurn_filter_iff⟩

theorem clientTurn_prunes (timenow s : Int) (usersMap : UserMap) :
    Prunes (clientTurn timenow s) usersMap
      (usersMap.filter fun entry => decide (timenow - entry.2.lastPing ≤ s)) := by
  simp only [← not_sockData_expired_iff]
  exact ⟨fun _ => OrderedMap.returns_eraseTurn_iff, fun _ => OrderedMap.returns_eraseTurn_filter_iff⟩

/-- **Both prunes are stable filters**, and repeating them changes nothing. -/
theorem prunes (timenow s : Int) (users : List User) (usersMap : UserMap) :
    Prunes (serverTurn timenow) users
        (users.filter fun u => decide (timenow - u.lastPing ≤ 120)) ∧
      Prunes (clientTurn timenow s) usersMap
        (usersMap.filter fun entry => decide (timenow - entry.2.lastPing ≤ s)) :=
  ⟨serverTurn_prunes timenow users, clientTurn_prunes timenow s usersMap⟩

end Pruning

end Bacteria.Client
