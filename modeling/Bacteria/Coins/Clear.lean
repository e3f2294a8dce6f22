/-
**`init_cryptocoins` and `clear_cryptocoins` as logs of allocations, reads and releases.**

* `initLog`, `initLog_allocations` — the loader allocates the user of every entry twice.
* `clearCryptocoins` — the releasing loop over its 8-bit index, from whatever memory lies behind the
  table; `released` counts the entries it gets to.
* `clear_returns` — the loop ends on every table, with this log.
* `clearLog_frees` — of the entries it gets to, every string is freed, the host twice; of the others
  none.
* `not_releasedCompletely` — so no table is released completely and once.
-/

import Bacteria.Coins.Table
import Bacteria.Lib.AllocLog
import Bacteria.Lib.Loop
import Mathlib.Data.List.TakeWhile

namespace Bacteria.Coins

open Clib AllocLog Loops

/-- The strings of an entry. -/
inductive Field where
  | name
  | user
  | password
  | host
deriving DecidableEq

/-- What is allocated for a table. -/
inductive CoinBlock where
  | string (entry : Nat) (field : Field)
  | array
deriving DecidableEq

/-- A log; entries of the table are read by their index. -/
abbrev CoinLog := List (Event CoinBlock Nat)

/-! ### The loader -/

/-- `SET_VALUE_string`: `calloc`, then `strcpy` through the pointer in the entry. -/
def setValue (entry : Nat) (field : Field) : CoinLog :=
  [.allocate (.string entry field), .read entry]

/-- What the loader does for one section. -/
def initEntry (entry : Nat) : CoinLog :=
  setValue entry .name ++ setValue entry .user ++ setValue entry .user ++ setValue entry .host ++
    setValue entry .password

/-- The loader's loop `for (uint i = count_cryptocoins; i--;)`. -/
def initTurns : Nat → CoinLog
  | 0 => []
  | i + 1 => initEntry i ++ initTurns i

/-- The log of `init_cryptocoins` for so many sections. -/
def initLog (count : Nat) : CoinLog := .allocate .array :: initTurns count

/-- How often a field is allocated for one entry. -/
def Field.allocated : Field → Nat
  | .user => 2
  | _ => 1

theorem initEntry_allocations (entry i : Nat) (field : Field) :
    allocations (initEntry entry) (.string i field) = if i = entry then field.allocated else 0 := by
  by_cases same : i = entry
  · subst same
    cases field <;> simp [initEntry, setValue, allocations, Field.allocated]
  · cases field <;> simp [initEntry, setValue, allocations, same, Ne.symm same]

/-- **What the loader allocates.** -/
theorem initLog_allocations (count i : Nat) (field : Field) :
    allocations (initLog count) (.string i field) = if i < count then field.allocated else 0 := by
  have turns : allocations (initTurns count) (.string i field) =
      if i < count then field.allocated else 0 := by
    induction count with
    | zero => rfl
    | succ count ih =>
      rw [initTurns, allocations_append, initEntry_allocations, ih]
      split <;> split <;> split <;> omega
  rw [initLog, allocations, List.count_cons_of_ne (by simp)]
  exact turns

theorem initLog_frees (count : Nat) (block : CoinBlock) : frees (initLog count) block = 0 := by
  have turns : frees (initTurns count) block = 0 := by
    induction count with
    | zero => rfl
    | succ count ih =>
      rw [initTurns, frees_append, ih, Nat.add_zero, frees_eq_zero]
      simp [initEntry, setValue]
  rw [initLog, frees, List.count_cons_of_ne (by simp)]
  exact turns

/-! ### The releasing loop -/

/-- The state of `clear_cryptocoins`: the entries as they lie in memory, `i`, and the log. -/
structure Clearing where
  cryptocoins : Nat → Cryptocoin
  i : UInt8
  log : CoinLog

/-- `free(cryptocoins[i].field)`. -/
def release (entry : Nat) (field : Field) : CoinLog :=
  [.read entry, .free (.string entry field)]

/-- The releases of one turn. -/
def clearEntry (entry : Nat) : CoinLog :=
  release entry .name ++ release entry .host ++ release entry .user ++ release entry .password ++
    release entry .host

/-- The entry as a turn leaves it. -/
def Cryptocoin.cleared (coin : Cryptocoin) : Cryptocoin :=
  { coin with testnet := false, rpchost := none }

/-- One turn: the host is looked at, then the port, and only then the index. -/
def clearTurn (count : Nat) (s : Clearing) : Clearing ⊕ CoinLog :=
  let i := s.i.toNat
  let coin := s.cryptocoins i
  if coin.rpchost = none then .inr (s.log ++ [.read i] ++ [.free .array])
  else if coin.rpcport = 0 ∨ ¬ i < count then .inr (s.log ++ [.read i, .read i] ++ [.free .array])
  else .inl {
    cryptocoins := fun j => if j = i then coin.cleared else s.cryptocoins j
    i := s.i + 1
    log := s.log ++ ([.read i, .read i] ++ clearEntry i) }

/-- The entries from the start of the table on, and what lies behind it. -/
def memory (table : List Cryptocoin) (beyond : Nat → Cryptocoin) (i : Nat) : Cryptocoin :=
  table[i]?.getD (beyond i)

/-- `clear_cryptocoins` ends with this log. -/
def ClearCryptocoins (table : List Cryptocoin) (beyond : Nat → Cryptocoin) (log : CoinLog) : Prop :=
  Returns (clearTurn table.length) ⟨memory table beyond, 0, []⟩ log

/-- **The log of the releasing loop**: the entries it gets to, the reads that end it, the array. -/
def clearLog (table : List Cryptocoin) (reads : Nat) : CoinLog :=
  (List.range (scanned table)).flatMap (fun i => [.read i, .read i] ++ clearEntry i) ++
    List.replicate (reads + 1) (.read (scanned table % 256)) ++ [.free .array]

/-- The loop after `k` turns. -/
def clearState (table : List Cryptocoin) (beyond : Nat → Cryptocoin) (k : Nat) : Clearing where
  cryptocoins i := if i < k then (memory table beyond i).cleared else memory table beyond i
  i := UInt8.ofNat k
  log := (List.range k).flatMap fun i => [.read i, .read i] ++ clearEntry i

theorem memory_of_lt {table : List Cryptocoin} (beyond : Nat → Cryptocoin) {i : Nat}
    (inside : i < table.length) : memory table beyond i = table[i] := by
  rw [memory, List.getElem?_eq_getElem inside, Option.getD_some]

/-- **One turn over an entry with a port.** -/
theorem clearTurn_next {table : List Cryptocoin} (beyond : Nat → Cryptocoin)
    (hosts : ∀ coin ∈ table, coin.rpchost ≠ none) {k : Nat} (below : k < scanned table) :
    clearTurn table.length (clearState table beyond k) =
      .inl (clearState table beyond (k + 1)) := by
  have bounds := scanned_le table
  have inside : k < table.length := by omega
  have index : (UInt8.ofNat k).toNat = k :=
    UInt8.toNat_ofNat_of_lt' (show k < 256 by omega)
  have coin : (clearState table beyond k).cryptocoins k = table[k] := by
    show (if k < k then _ else _) = _
    rw [if_neg (Nat.lt_irrefl k), memory_of_lt beyond inside]
  have host := hosts _ (List.getElem_mem inside)
  have port := scanned_port below inside
  have goes : ¬ (table[k].rpcport = 0 ∨ ¬ k < table.length) := by simp [port, inside]
  have counter : (clearState table beyond k).i.toNat = k := index
  rw [clearTurn]
  simp only [counter, coin, if_neg host, if_neg goes]
  congr 1
  rw [clearState, clearState, Clearing.mk.injEq]
  refine ⟨funext fun j => ?_, ?_, ?_⟩
  · by_cases here : j = k
    · subst here
      rw [if_pos rfl, if_pos (Nat.lt_succ_self j), memory_of_lt beyond inside]
    · rw [if_neg here]
      have same : j < k ↔ j < k + 1 := by omega
      simp only [same]
  · simp
  · rw [List.range_succ, List.flatMap_append, List.flatMap_singleton]

/-- **The turn that ends the loop**: a zero port, the end of the table or a released entry. -/
theorem clearTurn_done (table : List Cryptocoin) (beyond : Nat → Cryptocoin) :
    ∃ reads, clearTurn table.length (clearState table beyond (scanned table)) =
      .inr (clearLog table reads) := by
  have bound := (scanned_le table).2
  have counter : (clearState table beyond (scanned table)).i.toNat = scanned table % 256 :=
    UInt8.toNat_ofNat'
  rw [clearTurn]
  simp only [counter]
  by_cases noHost : ((clearState table beyond (scanned table)).cryptocoins
      (scanned table % 256)).rpchost = none
  · exact ⟨0, by rw [if_pos noHost]; rfl⟩
  · have short : scanned table < 256 := by
      -- after 256 turns the index is back at the first entry, which has lost its host
      refine lt_of_le_of_ne bound fun wrapped => noHost ?_
      rw [wrapped]
      rfl
    have stops : ((clearState table beyond (scanned table)).cryptocoins
        (scanned table % 256)).rpcport = 0 ∨ ¬ scanned table % 256 < table.length := by
      rw [Nat.mod_eq_of_lt short]
      by_cases inside : scanned table < table.length
      · refine Or.inl ?_
        show (if scanned table < scanned table then _ else _ : Cryptocoin).rpcport = 0
        rw [if_neg (Nat.lt_irrefl _), memory_of_lt beyond inside]
        exact scanned_stop short inside
      · exact Or.inr inside
    exact ⟨1, by rw [if_neg noHost, if_pos stops]; rfl⟩

/-- **`clear_cryptocoins` ends on every loaded table**, with this log. -/
theorem clear_returns (table : List Cryptocoin) (beyond : Nat → Cryptocoin)
    (hosts : ∀ coin ∈ table, coin.rpchost ≠ none) :
    ∃ reads, ClearCryptocoins table beyond (clearLog table reads) := by
  obtain ⟨reads, done⟩ := clearTurn_done table beyond
  refine ⟨reads, (returns_iff_of_steps (clearState table beyond) fun k below =>
    clearTurn_next beyond hosts below).mpr ?_⟩
  exact (returns_iff_of_done done).mpr rfl

/-! ### What the loop frees -/

/-- How often one turn frees a field. -/
def Field.freed : Field → Nat
  | .host => 2
  | _ => 1

theorem clearEntry_frees (entry i : Nat) (field : Field) :
    frees ([.read entry, .read entry] ++ clearEntry entry) (.string i field) =
      if i = entry then field.freed else 0 := by
  by_cases same : i = entry
  · subst same
    cases field <;> simp [clearEntry, release, frees, Field.freed]
  · cases field <;> simp [clearEntry, release, frees, same, Ne.symm same]

/-- **Up to the entry it stops at the loop frees every string, the host twice; from there on none.** -/
theorem clearLog_frees (table : List Cryptocoin) (reads i : Nat) (field : Field) :
    frees (clearLog table reads) (.string i field) =
      if i < scanned table then field.freed else 0 := by
  have entries : ∀ count, frees ((List.range count).flatMap
      fun i => [.read i, .read i] ++ clearEntry i) (.string i field) =
        if i < count then field.freed else 0 := by
    intro count
    induction count with
    | zero => rfl
    | succ count ih =>
      rw [List.range_succ, List.flatMap_append, List.flatMap_singleton, frees_append, ih,
        clearEntry_frees]
      split <;> split <;> split <;> omega
  have ending : frees (List.replicate (reads + 1) (.read (scanned table % 256)) ++
      [.free .array] : CoinLog) (.string i field) = 0 := by
    simp [frees_eq_zero]
  rw [clearLog, List.append_assoc, frees_append, ending, entries, Nat.add_zero]

/-! ### The whole life of a table -/

/-- Every string of every entry is freed once, the array after them; no entry behind the table is read,
and nothing the loader allocated is left. -/
structure ReleasedCompletely (count : Nat) (log : CoinLog) : Prop where
  strings : ∀ i < count, ∀ field, frees log (.string i field) = 1
  array : ReleasedLast log .array
  reads : ∀ i, .read i ∈ log → i < count
  nothingLeft : ∀ i field, allocations (initLog count ++ log) (.string i field) ≤
    frees (initLog count ++ log) (.string i field)

/-- **What is left of the strings of a table**: the user of every released entry, once; every string
of the other entries. -/
theorem left_allocated (table : List Cryptocoin) (reads i : Nat) (field : Field)
    (inside : i < table.length) :
    allocations (initLog table.length ++ clearLog table reads) (.string i field) =
        field.allocated ∧
      frees (initLog table.length ++ clearLog table reads) (.string i field) =
        if i < scanned table then field.freed else 0 := by
  have clearing : allocations (clearLog table reads) (.string i field) = 0 := by
    rw [allocations, List.count_eq_zero]
    simp [clearLog, clearEntry, release]
  constructor
  · rw [allocations_append, initLog_allocations, if_pos inside, clearing, Nat.add_zero]
  · rw [frees_append, initLog_frees, clearLog_frees, Nat.zero_add]

/-- **No table is released completely and once.** -/
theorem not_releasedCompletely (sections : List Section) (beyond : Nat → Cryptocoin) :
    ¬ ∃ log, ClearCryptocoins (initCryptocoins sections) beyond log ∧
      ReleasedCompletely sections.length log := by
  rintro ⟨log, ends, complete⟩
  obtain ⟨reads, returned⟩ := clear_returns (initCryptocoins sections) beyond
    fun _ member => initCryptocoins_rpchost member
  obtain rfl := returns_unique ends returned
  by_cases empty : sections.length = 0
  · -- the entry behind the empty table is looked at first
    have member : .read 0 ∈ clearLog (initCryptocoins sections) reads := by
      have bound := (scanned_le (initCryptocoins sections)).1
      rw [initCryptocoins_length, empty, Nat.le_zero] at bound
      simp [clearLog, bound]
    have inside := complete.reads 0 member
    omega
  · have once := complete.strings 0 (Nat.pos_of_ne_zero empty) .host
    rw [clearLog_frees] at once
    split at once <;> cases once

/-- One section, with a port. -/
def oneSection : Section := plainSection btc 8332

/-- **The host of a single coin is freed twice, one copy of its user never, and the entry behind it is
read.** -/
theorem singleCoin_misreleased :
    ∃ log, ClearCryptocoins (initCryptocoins [oneSection]) (fun _ => initCryptocoin oneSection) log ∧
      frees log (.string 0 .host) = 2 ∧
      allocations (initLog 1 ++ log) (.string 0 .user) = 2 ∧
      frees (initLog 1 ++ log) (.string 0 .user) = 1 ∧
      .read 1 ∈ log ∧ ¬ ReleasedCompletely 1 log := by
  have reached : scanned (initCryptocoins [oneSection]) = 1 := by decide
  obtain ⟨reads, returned⟩ := clear_returns (initCryptocoins [oneSection])
    (fun _ => initCryptocoin oneSection) fun _ member => initCryptocoins_rpchost member
  have host : frees (clearLog (initCryptocoins [oneSection]) reads) (.string 0 .host) = 2 := by
    rw [clearLog_frees, reached]
    rfl
  obtain ⟨allocated, freed⟩ := left_allocated (initCryptocoins [oneSection]) reads 0 .user
    (by decide)
  rw [reached] at freed
  have member : .read 1 ∈ clearLog (initCryptocoins [oneSection]) reads := by
    simp [clearLog, reached]
  refine ⟨_, returned, host, allocated, freed, member, fun complete => ?_⟩
  exact absurd (complete.reads 1 member) (Nat.lt_irrefl 1)

end Bacteria.Coins
