/-
**The coin table of libbacteria/cryptocoins.c.**

* `Section` — one section of the ini file, as iniparser gives its values out.
* `Cryptocoin` — `struct cryptocoin`; `initCryptocoins` builds the table, one entry a section.
* `storedPort` — the port goes through an `int` and a `uint16_t`.
* `initCryptocoins_rpchost` — no entry of a loaded table has a null host.
-/

import Bacteria.Lib.CString
import Mathlib.Data.Int.Basic
import Mathlib.Order.MinMax

namespace Bacteria.Coins

open Clib

/-- One section of the ini file; a key that is missing has no value. `rpcport` is the `int` that
`iniparser_getint` returns for it. -/
structure Section where
  secName : CString
  rpcpassword : Option CString
  rpcuser : Option CString
  rpchost : Option CString
  rpcport : Int32
  testnet : Bool

/-- `struct cryptocoin`; only its host is ever compared with NULL. -/
structure Cryptocoin where
  testnet : Bool
  rpcuser : CString
  rpcpassword : CString
  rpcport : UInt16
  rpchost : Option CString
  cryptocoinName : CString
deriving DecidableEq

/-- The `int` as the `uint16_t` of the entry. -/
def storedPort (n : Int32) : UInt16 := n.toUInt32.toUInt16

/-- The entry for a section, with the defaults `nopass`, `user` and `localhost`. -/
def initCryptocoin (sec : Section) : Cryptocoin where
  testnet := sec.testnet
  rpcuser := sec.rpcuser.getD ⟨ascii "user", by decide⟩
  rpcpassword := sec.rpcpassword.getD ⟨ascii "nopass", by decide⟩
  rpcport := storedPort sec.rpcport
  rpchost := some (sec.rpchost.getD ⟨ascii "localhost", by decide⟩)
  cryptocoinName := sec.secName

/-- `init_cryptocoins`: entry `i` comes from section `i`, and `count_cryptocoins` is the length. -/
def initCryptocoins (sections : List Section) : List Cryptocoin := sections.map initCryptocoin

theorem initCryptocoins_length (sections : List Section) :
    (initCryptocoins sections).length = sections.length := List.length_map _

theorem initCryptocoins_names (sections : List Section) :
    (initCryptocoins sections).map Cryptocoin.cryptocoinName = sections.map Section.secName := by
  rw [initCryptocoins, List.map_map]
  rfl

/-- **Every entry of a loaded table has a host.** -/
theorem initCryptocoins_rpchost {sections : List Section} {coin : Cryptocoin}
    (member : coin ∈ initCryptocoins sections) : coin.rpchost ≠ none := by
  obtain ⟨sec, _, rfl⟩ := List.mem_map.mp member
  exact Option.some_ne_none _

/-- A section with this name and port, and no other keys. -/
def plainSection (name : CString) (port : Int32) : Section where
  secName := name
  rpcpassword := none
  rpcuser := none
  rpchost := none
  rpcport := port
  testnet := false

/-- The name of such a section. -/
def btc : CString := ⟨ascii "btc", by decide⟩

/-! ### Scans with an 8-bit index -/

/-- How many entries a scan from the start gets over that stops at a zero port and whose index has
eight bits. -/
def scanned (table : List Cryptocoin) : Nat :=
  (table.take 256).findIdx fun coin => coin.rpcport = 0

theorem scanned_le (table : List Cryptocoin) :
    scanned table ≤ table.length ∧ scanned table ≤ 256 := by
  have bound : scanned table ≤ (table.take 256).length := List.findIdx_le_length
  rw [List.length_take] at bound
  omega

/-- The entries it gets over have ports. -/
theorem scanned_port {table : List Cryptocoin} {i : Nat} (below : i < scanned table)
    (inside : i < table.length) : table[i].rpcport ≠ 0 := by
  have passed := List.not_of_lt_findIdx below
  simpa using passed

/-- The entry it stops at has none. -/
theorem scanned_stop {table : List Cryptocoin} (short : scanned table < 256)
    (inside : scanned table < table.length) : table[scanned table].rpcport = 0 := by
  have within : scanned table < (table.take 256).length := by
    rw [List.length_take]
    exact lt_min short inside
  have stopped := @List.findIdx_getElem Cryptocoin (fun coin => decide (coin.rpcport = 0)) _ within
  have same : (table.take 256)[scanned table] = table[scanned table] := List.getElem_take
  rw [← same]
  exact of_decide_eq_true stopped

end Bacteria.Coins
