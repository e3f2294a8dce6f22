/-
**The three lookups of a coin by its name.**

* `searchByName`, `getMap` of src/protocolcxx/cryptocurrency.cpp — scans from the start of the table
  with an 8-bit index, which look at the entry before they compare the index with the count.
* `getCryptocoinsTable` of libbacteria/lua/libcrypto.c — a scan from the end, over the low eight bits of
  the count.
* `searchByName_found`, `searchByName_stops`, `getMap_stops`, `getMap_runsOut`, `getMap_endless`,
  `scanDown_found`, `scanDown_notFound` — what each scan makes of a table.
* `lookupsAgree_iff` — the three agree exactly if one of the first 256 entries has no port, and the name
  is that of an entry before it, within the low eight bits of the count, or of none; what stands before
  a NUL in the name is the name of no entry that is found.
-/

import Bacteria.Coins.Table
import Bacteria.Lib.Loop

namespace Bacteria.Coins

open Clib Loops

/-- How a search ends: with the entry at an index, without one (`throw`, `luaL_error`), or with a read
behind the table. -/
inductive Search where
  | found (index : Nat)
  | notFound
  | outside
deriving DecidableEq

/-- One turn of `searchByName`; `strcmp` reads the name up to its first NUL. -/
def searchTurn (table : List Cryptocoin) (n : Bytes) (i : UInt8) : UInt8 ⊕ Search :=
  match table[i.toNat]? with
  | none => .inr .outside
  | some coin =>
    if coin.rpchost = none ∨ coin.rpcport = 0 ∨ ¬ i.toNat < table.length then .inr .notFound
    else if coin.cryptocoinName = cstr n then .inr (.found i.toNat)
    else .inl (i + 1)

/-- `searchByName(n)` ends like this. -/
def SearchByName (table : List Cryptocoin) (n : Bytes) (out : Search) : Prop :=
  Returns (searchTurn table n) 0 out

/-- `std::map<std::string, struct cryptocoin *>`: the index of the entry behind each key. -/
abbrev MapOfKeys := Bytes → Option Nat

/-- One turn of `getMap`; a later entry takes the key of an earlier one. -/
def mapTurn (table : List Cryptocoin) (s : UInt8 × MapOfKeys) :
    (UInt8 × MapOfKeys) ⊕ Option MapOfKeys :=
  match table[s.1.toNat]? with
  | none => .inr none
  | some coin =>
    if coin.rpchost = none ∨ coin.rpcport = 0 ∨ ¬ s.1.toNat < table.length then .inr (some s.2)
    else .inl (s.1 + 1, fun key =>
      if key = coin.cryptocoinName.bytes then some s.1.toNat else s.2 key)

/-- `getMap()` ends with this map; `none` is a read behind the table. -/
def GetMap (table : List Cryptocoin) (out : Option MapOfKeys) : Prop :=
  Returns (mapTurn table) (0, fun _ => none) out

/-- The loop `for (unsigned char i = c; i--;)` of `getCryptocoinsTable`. -/
def scanDown (table : List Cryptocoin) (needcoin : CString) : Nat → Search
  | 0 => .notFound
  | i + 1 =>
    match table[i]? with
    | none => .outside
    | some coin => if needcoin = coin.cryptocoinName then .found i else scanDown table needcoin i

/-- `getCryptocoinsTable`; the count of the table is narrowed to the index, and `luaL_checkstring` gives
the name up to its first NUL. -/
def getCryptocoinsTable (table : List Cryptocoin) (needcoin : Bytes) : Search :=
  scanDown table (cstr needcoin) (UInt8.ofNat table.length).toNat

/-- The entry at an index has this name. -/
def Named (table : List Cryptocoin) (n : Bytes) (k : Nat) : Prop :=
  ∃ coin, table[k]? = some coin ∧ coin.cryptocoinName.bytes = n

/-- A table as `init_cryptocoins` builds it: every entry has a host. -/
def Hosted (table : List Cryptocoin) : Prop := ∀ coin ∈ table, coin.rpchost ≠ none

/-- No two entries have one name. -/
def Distinct (table : List Cryptocoin) : Prop := (table.map Cryptocoin.cryptocoinName).Nodup

theorem Named.unique {table : List Cryptocoin} (distinct : Distinct table) {n : Bytes} {j k : Nat}
    (one : Named table n j) (other : Named table n k) : j = k := by
  obtain ⟨first, firstHere, firstName⟩ := one
  obtain ⟨second, secondHere, secondName⟩ := other
  have inside : j < (table.map Cryptocoin.cryptocoinName).length := by
    rw [List.length_map]
    exact (List.getElem?_eq_some_iff.mp firstHere).1
  refine (List.getElem?_inj inside distinct).mp ?_
  rw [List.getElem?_map, List.getElem?_map, firstHere, secondHere, Option.map_some, Option.map_some,
    CString.ext (firstName.trans secondName.symm)]

/-! ### Scans from the start -/

section Up

variable {table : List Cryptocoin} (hosted : Hosted table)

include hosted in
/-- An entry the scan gets over. -/
theorem entry_of_lt_scanned {k : Nat} (below : k < scanned table) :
    ∃ coin, table[(UInt8.ofNat k).toNat]? = some coin ∧ (UInt8.ofNat k).toNat = k ∧
      ¬ (coin.rpchost = none ∨ coin.rpcport = 0 ∨ ¬ (UInt8.ofNat k).toNat < table.length) := by
  have bounds := scanned_le table
  have inside : k < table.length := by omega
  have index : (UInt8.ofNat k).toNat = k :=
    UInt8.toNat_ofNat_of_lt' (show k < 256 by omega)
  refine ⟨table[k], by rw [index, List.getElem?_eq_getElem inside], index, ?_⟩
  rw [index]
  simp [hosted _ (List.getElem_mem inside), scanned_port below inside, inside]

/-- The entry it stops at. -/
theorem entry_at_scanned (short : scanned table < 256) (inside : scanned table < table.length) :
    ∃ coin, table[(UInt8.ofNat (scanned table)).toNat]? = some coin ∧ coin.rpcport = 0 := by
  have index : (UInt8.ofNat (scanned table)).toNat = scanned table :=
    UInt8.toNat_ofNat_of_lt' short
  exact ⟨table[scanned table], by rw [index, List.getElem?_eq_getElem inside],
    scanned_stop short inside⟩

include hosted in
theorem searchByName_iff_of_unnamed {n : Bytes} {k : Nat} (reached : k ≤ scanned table)
    (unnamed : ∀ i < k, ¬ Named table (cstr n).bytes i) (out : Search) :
    SearchByName table n out ↔ Returns (searchTurn table n) (UInt8.ofNat k) out := by
  refine returns_iff_of_steps UInt8.ofNat fun i below => ?_
  obtain ⟨coin, here, index, goes⟩ := entry_of_lt_scanned hosted (lt_of_lt_of_le below reached)
  have other : coin.cryptocoinName ≠ cstr n := fun same =>
    unnamed i below ⟨coin, by rw [← index]; exact here, congrArg CString.bytes same⟩
  rw [searchTurn, here]
  simp only [if_neg goes, if_neg other, UInt8.ofNat_add]
  rfl

include hosted in
/-- **A name before the first entry without a port is found.** -/
theorem searchByName_found {n : Bytes} {k : Nat} (reached : k < scanned table)
    (named : Named table (cstr n).bytes k) (unnamed : ∀ i < k, ¬ Named table (cstr n).bytes i) :
    SearchByName table n (.found k) := by
  refine (searchByName_iff_of_unnamed hosted (le_of_lt reached) unnamed _).mpr ?_
  obtain ⟨coin, here, index, goes⟩ := entry_of_lt_scanned hosted reached
  obtain ⟨same, at_k, name⟩ := named
  rw [index, at_k] at here
  obtain rfl := Option.some.inj here
  refine (returns_iff_of_done ?_).mpr rfl
  rw [index] at goes
  rw [searchTurn, index, at_k]
  simp only [if_neg goes, if_pos (CString.ext name)]

include hosted in
/-- **Any other name ends the search at the first entry without a port.** -/
theorem searchByName_stops {n : Bytes} (short : scanned table < 256)
    (inside : scanned table < table.length)
    (unnamed : ∀ i < scanned table, ¬ Named table (cstr n).bytes i) :
    SearchByName table n .notFound := by
  refine (searchByName_iff_of_unnamed hosted (le_refl _) unnamed _).mpr ?_
  obtain ⟨coin, here, port⟩ := entry_at_scanned short inside
  refine (returns_iff_of_done ?_).mpr rfl
  rw [searchTurn, here]
  simp only [port, true_or, or_true, if_true]

/-- The map of the first entries. -/
def mapOf (table : List Cryptocoin) : Nat → Bytes → Option Nat
  | 0, _ => none
  | k + 1, key =>
    if table[k]?.map (·.cryptocoinName.bytes) = some key then some k else mapOf table k key

theorem mapOf_none {n : Bytes} {k : Nat} (unnamed : ∀ i < k, ¬ Named table n i) :
    mapOf table k n = none := by
  induction k with
  | zero => rfl
  | succ k ih =>
    have other : ¬ table[k]?.map (·.cryptocoinName.bytes) = some n := fun same =>
      unnamed k (Nat.lt_succ_self k) (Option.map_eq_some_iff.mp same)
    rw [mapOf, if_neg other, ih fun i below => unnamed i (Nat.lt_succ_of_lt below)]

theorem mapOf_some (distinct : Distinct table) {n : Bytes} {j k : Nat} (below : j < k)
    (named : Named table n j) : mapOf table k n = some j := by
  induction k with
  | zero => exact absurd below (Nat.not_lt_zero j)
  | succ k ih =>
    rw [mapOf]
    by_cases here : table[k]?.map (·.cryptocoinName.bytes) = some n
    · rw [if_pos here, named.unique distinct (Option.map_eq_some_iff.mp here)]
    · rw [if_neg here]
      refine ih (lt_of_le_of_ne (Nat.le_of_lt_succ below) fun same => here ?_)
      rw [← same]
      exact Option.map_eq_some_iff.mpr named

include hosted in
theorem getMap_iff (k : Nat) (reached : k ≤ scanned table) (out : Option MapOfKeys) :
    GetMap table out ↔ Returns (mapTurn table) (UInt8.ofNat k, mapOf table k) out := by
  have steps : ∀ i < k, mapTurn table (UInt8.ofNat i, mapOf table i) =
      .inl (UInt8.ofNat (i + 1), mapOf table (i + 1)) := by
    intro i below
    obtain ⟨coin, here, index, goes⟩ := entry_of_lt_scanned hosted (lt_of_lt_of_le below reached)
    have entry : table[i]? = some coin := by rw [← here, index]
    rw [mapTurn, here]
    simp only [if_neg goes, Sum.inl.injEq, Prod.mk.injEq]
    refine ⟨(UInt8.ofNat_add i 1).symm, funext fun key => ?_⟩
    rw [mapOf, entry, index]
    simp only [Option.map_some, Option.some.injEq, eq_comm]
  exact returns_iff_of_steps (fun i => (UInt8.ofNat i, mapOf table i)) steps

include hosted in
/-- **The map holds the entries before the first one without a port.** -/
theorem getMap_stops (short : scanned table < 256) (inside : scanned table < table.length) :
    GetMap table (some (mapOf table (scanned table))) := by
  refine (getMap_iff hosted (scanned table) (le_refl _) _).mpr ?_
  obtain ⟨coin, here, port⟩ := entry_at_scanned short inside
  refine (returns_iff_of_done ?_).mpr rfl
  rw [mapTurn, here]
  simp only [port, true_or, or_true, if_true]

include hosted in
/-- **A short table whose entries all have ports is read past its end.** -/
theorem getMap_runsOut (short : scanned table < 256) (whole : scanned table = table.length) :
    GetMap table none := by
  refine (getMap_iff hosted (scanned table) (le_refl _) _).mpr ?_
  have index : (UInt8.ofNat (scanned table)).toNat = table.length := by
    rw [UInt8.toNat_ofNat', ← whole]
    omega
  refine (returns_iff_of_done ?_).mpr rfl
  rw [mapTurn, index, List.getElem?_eq_none (le_refl _)]

include hosted in
/-- **A table whose first 256 entries all have ports is scanned for ever.** -/
theorem getMap_endless (wraps : scanned table = 256) (out : Option MapOfKeys) :
    ¬ GetMap table out := by
  refine not_returns_of_progress (fun _ => True) (fun s _ => ?_) trivial out
  have below : s.1.toNat < scanned table := by
    rw [wraps]
    exact s.1.toNat_lt
  obtain ⟨coin, here, _, goes⟩ := entry_of_lt_scanned hosted below
  rw [UInt8.ofNat_toNat] at here goes
  rw [mapTurn, here]
  simp only [if_neg goes]
  exact ⟨_, rfl, trivial⟩

include hosted in
/-- **`getMap` returns a map exactly if it stops inside the table**, and then this one. -/
theorem getMap_some_iff (map : MapOfKeys) :
    GetMap table (some map) ↔
      scanned table < 256 ∧ scanned table < table.length ∧ map = mapOf table (scanned table) := by
  have bounds := scanned_le table
  constructor
  · intro ends
    have short : scanned table < 256 :=
      lt_of_le_of_ne bounds.2 fun wraps => getMap_endless hosted wraps _ ends
    have inside : scanned table < table.length := by
      refine lt_of_le_of_ne bounds.1 fun whole => ?_
      have same := returns_unique ends (getMap_runsOut hosted short whole)
      cases same
    exact ⟨short, inside, Option.some.inj (returns_unique ends (getMap_stops hosted short inside))⟩
  · rintro ⟨short, inside, rfl⟩
    exact getMap_stops hosted short inside

end Up

/-! ### The scan from the end -/

section Down

variable {table : List Cryptocoin}

theorem scanDown_notFound {needcoin : CString} {count : Nat} (inside : count ≤ table.length)
    (unnamed : ∀ i < count, ¬ Named table needcoin.bytes i) :
    scanDown table needcoin count = .notFound := by
  induction count with
  | zero => rfl
  | succ i ih =>
    have here := List.getElem?_eq_getElem (Nat.lt_of_succ_le inside)
    have other : ¬ needcoin = table[i].cryptocoinName := fun same =>
      unnamed i (Nat.lt_succ_self i) ⟨table[i], here, congrArg CString.bytes same.symm⟩
    simp only [scanDown, here, if_neg other]
    exact ih (Nat.le_of_succ_le inside) fun j below => unnamed j (Nat.lt_succ_of_lt below)

theorem scanDown_found (distinct : Distinct table) {needcoin : CString} {k count : Nat}
    (inside : count ≤ table.length) (below : k < count) (named : Named table needcoin.bytes k) :
    scanDown table needcoin count = .found k := by
  induction count with
  | zero => exact absurd below (Nat.not_lt_zero k)
  | succ i ih =>
    have here := List.getElem?_eq_getElem (Nat.lt_of_succ_le inside)
    simp only [scanDown, here]
    by_cases same : needcoin = table[i].cryptocoinName
    · have first : Named table needcoin.bytes i := ⟨table[i], here, congrArg CString.bytes same.symm⟩
      rw [if_pos same, named.unique distinct first]
    · rw [if_neg same]
      refine ih (Nat.le_of_succ_le inside) (lt_of_le_of_ne (Nat.le_of_lt_succ below) ?_)
      rintro rfl
      obtain ⟨coin, there, name⟩ := named
      rw [here] at there
      obtain rfl := Option.some.inj there
      exact same (CString.ext name.symm)

/-- The low eight bits of the count. -/
theorem narrowed_count (table : List Cryptocoin) :
    (UInt8.ofNat table.length).toNat = table.length % 256 := UInt8.toNat_ofNat'

/-- **`getCryptocoinsTable` finds the names within the low eight bits of the count**, -/
theorem getCryptocoinsTable_found (distinct : Distinct table) {n : Bytes} {k : Nat}
    (named : Named table (cstr n).bytes k) (low : k < table.length % 256) :
    getCryptocoinsTable table n = .found k := by
  rw [getCryptocoinsTable, narrowed_count]
  exact scanDown_found distinct (Nat.mod_le _ _) low named

/-- and no others. -/
theorem getCryptocoinsTable_notFound {n : Bytes}
    (unnamed : ∀ i < table.length % 256, ¬ Named table (cstr n).bytes i) :
    getCryptocoinsTable table n = .notFound := by
  rw [getCryptocoinsTable, narrowed_count]
  exact scanDown_notFound (Nat.mod_le _ _) unnamed

end Down

/-! ### Agreement -/

/-- All three find the entry with this name, or there is none and none of them finds one. Each ends, and
inside the table. -/
def LookupsAgree (table : List Cryptocoin) (n : Bytes) : Prop :=
  (∃ k, Named table n k ∧ getCryptocoinsTable table n = .found k ∧
    SearchByName table n (.found k) ∧ ∃ map, GetMap table (some map) ∧ map n = some k) ∨
  ((∀ k, ¬ Named table n k) ∧ getCryptocoinsTable table n = .notFound ∧
    SearchByName table n .notFound ∧ ∃ map, GetMap table (some map) ∧ map n = none)

/-- The entry lies before all entries without a port. -/
def Ported (table : List Cryptocoin) (k : Nat) : Prop :=
  ∀ i ≤ k, ∀ coin, table[i]? = some coin → coin.rpcport ≠ 0

/-- One of the first 256 entries has no port; an entry with this name lies before all such entries and
within the low eight bits of the count; and an entry whose name a NUL cuts out of this one lies neither
there nor there. -/
structure Lookable (table : List Cryptocoin) (n : Bytes) : Prop where
  portless : ∃ coin ∈ table.take 256, coin.rpcport = 0
  reached : ∀ k, Named table n k → k < table.length % 256 ∧ Ported table k
  missed : (0 : Byte) ∈ n → ∀ k, Named table (cstr n).bytes k →
    ¬ k < table.length % 256 ∧ ¬ Ported table k

theorem scanned_lt_iff (table : List Cryptocoin) :
    scanned table < 256 ∧ scanned table < table.length ↔
      ∃ coin ∈ table.take 256, coin.rpcport = 0 := by
  have some : scanned table < (table.take 256).length ↔
      ∃ coin ∈ table.take 256, coin.rpcport = 0 := by
    rw [scanned, List.findIdx_lt_length]
    simp only [decide_eq_true_eq]
  rw [← some, List.length_take]
  omega

section Agreement

variable {table : List Cryptocoin} {n : Bytes} {k : Nat}

/-- **The scans from the start get to an entry exactly if it is ported.** -/
theorem ported_iff (inside : scanned table < table.length) (short : scanned table < 256) :
    Ported table k ↔ k < scanned table := by
  constructor
  · intro ported
    by_contra beyond
    have here := List.getElem?_eq_getElem inside
    exact ported _ (Nat.le_of_not_lt beyond) _ here (scanned_stop short inside)
  · intro before i upTo coin here
    obtain ⟨within, rfl⟩ := List.getElem?_eq_some_iff.mp here
    exact scanned_port (lt_of_le_of_lt upTo before) within

/-- The entry's name, as a scan that stops at a NUL sees it. -/
theorem Named.seen (named : Named table n k) : (cstr n).bytes = n := by
  obtain ⟨coin, _, rfl⟩ := named
  exact (cstr_eq_iff _).mpr coin.cryptocoinName.noNul

/-- An entry with the name is the only one under it. -/
theorem Named.below (distinct : Distinct table) (named : Named table n k) {i : Nat} (lower : i < k) :
    ¬ Named table n i := fun other =>
  Nat.ne_of_lt lower (other.unique distinct named)

/-- The first half: what agreement tells of the table. -/
theorem lookable_of_agree (hosted : Hosted table) (distinct : Distinct table)
    (agree : LookupsAgree table n) : Lookable table n := by
  rcases agree with ⟨k, named, found, searched, map, ends, value⟩ |
    ⟨unnamed, missing, searched, map, ends, _⟩
  · obtain ⟨short, inside, rfl⟩ := (getMap_some_iff hosted map).mp ends
    have before : k < scanned table := by
      by_contra beyond
      rw [mapOf_none fun i below => named.below distinct (by omega)] at value
      cases value
    refine ⟨(scanned_lt_iff table).mp ⟨short, inside⟩, fun j other => ?_, fun nul => ?_⟩
    · obtain rfl := named.unique distinct other
      refine ⟨?_, (ported_iff inside short).mpr before⟩
      by_contra beyond
      have seen := named.seen ▸ named
      rw [getCryptocoinsTable_notFound fun i below => seen.below distinct (by omega)] at found
      cases found
    · exact absurd nul ((cstr_eq_iff n).mp named.seen)
  · obtain ⟨short, inside, rfl⟩ := (getMap_some_iff hosted map).mp ends
    refine ⟨(scanned_lt_iff table).mp ⟨short, inside⟩, fun k named => absurd named (unnamed k),
      fun _ k seen => ⟨fun low => ?_, fun ported => ?_⟩⟩
    · rw [getCryptocoinsTable_found distinct seen low] at missing
      cases missing
    · have found := searchByName_found hosted ((ported_iff inside short).mp ported) seen
        fun i below => seen.below distinct below
      cases returns_unique searched found

/-- The second half: each lookup of a lookable name. -/
theorem agree_of_lookable (hosted : Hosted table) (distinct : Distinct table)
    (lookable : Lookable table n) : LookupsAgree table n := by
  obtain ⟨short, inside⟩ := (scanned_lt_iff table).mpr lookable.portless
  have map := getMap_stops hosted short inside
  by_cases known : ∃ k, Named table n k
  · obtain ⟨k, named⟩ := known
    obtain ⟨low, ported⟩ := lookable.reached k named
    have before := (ported_iff inside short).mp ported
    have seen := named.seen.symm ▸ named
    exact Or.inl ⟨k, named, getCryptocoinsTable_found distinct seen low,
      searchByName_found hosted before seen fun i below => seen.below distinct below,
      mapOf table (scanned table), map, mapOf_some distinct before named⟩
  · have unnamed : ∀ k, ¬ Named table n k := fun k named => known ⟨k, named⟩
    -- an entry under the part before a NUL is out of reach of both scans
    have unseen : ∀ k, Named table (cstr n).bytes k →
        ¬ k < table.length % 256 ∧ ¬ Ported table k := by
      intro k seen
      refine lookable.missed ?_ k seen
      by_contra clean
      rw [(cstr_eq_iff n).mpr clean] at seen
      exact unnamed k seen
    refine Or.inr ⟨unnamed, getCryptocoinsTable_notFound fun i low seen => (unseen i seen).1 low,
      searchByName_stops hosted short inside fun i before seen => ?_, mapOf table (scanned table),
      map, mapOf_none fun i _ => unnamed i⟩
    exact (unseen i seen).2 ((ported_iff inside short).mpr before)

end Agreement

/-- **The three lookups agree on a name exactly in the tables where it is lookable.** -/
theorem lookupsAgree_iff (sections : List Section)
    (distinct : (sections.map Section.secName).Nodup) (n : Bytes) :
    LookupsAgree (initCryptocoins sections) n ↔ Lookable (initCryptocoins sections) n := by
  have hosted : Hosted (initCryptocoins sections) := fun _ member =>
    initCryptocoins_rpchost member
  have names : Distinct (initCryptocoins sections) := by
    rwa [Distinct, initCryptocoins_names]
  exact ⟨lookable_of_agree hosted names, agree_of_lookable hosted names⟩

/-- A coin with a port, and one without behind it. -/
def twoSections : List Section :=
  [plainSection btc 8332, plainSection ⟨ascii "end", by decide⟩ 65536]

/-- The coin before the entry without a port is found by all three. -/
theorem lookupsAgree_iff_sample :
    LookupsAgree (initCryptocoins twoSections) btc.bytes := by
  have distinct : (twoSections.map Section.secName).Nodup := by decide
  have first : Named (initCryptocoins twoSections) btc.bytes 0 := ⟨_, rfl, rfl⟩
  have names : Distinct (initCryptocoins twoSections) := by
    rwa [Distinct, initCryptocoins_names]
  refine (lookupsAgree_iff twoSections distinct _).mpr
    ⟨by decide, fun k named => ?_, fun nul => absurd nul btc.noNul⟩
  obtain rfl := first.unique names named
  refine ⟨by decide, fun i upTo coin here => ?_⟩
  obtain rfl := Nat.le_zero.mp upTo
  obtain rfl := Option.some.inj here
  decide

/-- The table of one coin with a port. -/
def singleCoin : List Cryptocoin := initCryptocoins [plainSection btc 8332]

/-- **A single coin with a port**: two lookups find it, the third reads behind the table. -/
theorem singleCoin_runsOut :
    getCryptocoinsTable singleCoin btc.bytes = .found 0 ∧
      SearchByName singleCoin btc.bytes (.found 0) ∧
      GetMap singleCoin none ∧
      ¬ LookupsAgree singleCoin btc.bytes := by
  have hosted : Hosted singleCoin := fun _ member => initCryptocoins_rpchost member
  have runsOut : GetMap singleCoin none := getMap_runsOut hosted (by decide) (by decide)
  refine ⟨by decide, ⟨1, by decide⟩, runsOut, ?_⟩
  rintro (⟨_, _, _, _, _, ends, _⟩ | ⟨_, _, _, _, ends, _⟩)
  · cases returns_unique ends runsOut
  · cases returns_unique ends runsOut

end Bacteria.Coins
