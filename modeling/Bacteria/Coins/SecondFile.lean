/-
**A second coin file.**

`init_new_cryptocoins` of libbacteria/cryptocoins.c, and the class `cryptocoins` of
src/protocolcxx/cryptocurrency.cpp that is built on it.

* `initNewCryptocoins` — the table, `*size` and the global count behind it; `size_right_iff` — when
  `*size` is right.
* `CoinsObject` — an object of the class; `ObjectSearch` — its search; `destroy`, `ObjectClear` — its
  destructor, on the global count and on the table.
* `SecondFile` — what the two are for; `secondFile_iff` — the files for which they do it.
-/

import Bacteria.Coins.Clear
import Bacteria.Coins.Lookup

namespace Bacteria.Coins

open Clib AllocLog Loops

/-- What a loading function returns, and the global `count_cryptocoins` behind it. -/
structure Loaded where
  table : Option (List Cryptocoin)
  countCryptocoins : Nat

/-- `init_cryptocoins`; the file is `none` when `iniparser_load` fails. -/
def loadCryptocoins (countCryptocoins : Nat) (file : Option (List Section)) : Loaded :=
  match file with
  | none => ⟨none, countCryptocoins⟩
  | some sections => ⟨some (initCryptocoins sections), sections.length⟩

/-- What `init_new_cryptocoins` returns and stores, and the global count behind it. -/
structure NewLoaded where
  table : Option (List Cryptocoin)
  size : Nat
  countCryptocoins : Nat

def initNewCryptocoins (countCryptocoins : Nat) (file : Option (List Section)) : NewLoaded :=
  let tmp := countCryptocoins
  let rt := loadCryptocoins countCryptocoins file
  ⟨rt.table, rt.countCryptocoins, tmp⟩

/-- An object of the class `cryptocoins`. -/
structure CoinsObject where
  mCryptocoins : Option (List Cryptocoin)
  mCount : Nat

/-- The constructor. -/
def construct (countCryptocoins : Nat) (file : Option (List Section)) : CoinsObject :=
  let loaded := initNewCryptocoins countCryptocoins file
  ⟨loaded.table, loaded.size⟩

/-- The entries that can be read; a null pointer has none. -/
def CoinsObject.entries (o : CoinsObject) : List Cryptocoin := o.mCryptocoins.getD []

/-- One turn of `searchByName`: the entry is looked at before the index. -/
def objectTurn (o : CoinsObject) (n : Bytes) (i : UInt8) : UInt8 ⊕ Search :=
  match o.entries[i.toNat]? with
  | none => .inr .outside
  | some coin =>
    if coin.rpchost = none ∨ coin.rpcport = 0 ∨ ¬ i.toNat < o.mCount then .inr .notFound
    else if coin.cryptocoinName = cstr n then .inr (.found i.toNat)
    else .inl (i + 1)

/-- `searchByName(n)` ends like this. -/
def ObjectSearch (o : CoinsObject) (n : Bytes) (out : Search) : Prop :=
  Returns (objectTurn o n) 0 out

/-- The destructor: the global count while the table is cleared, and behind it. -/
def destroy (countCryptocoins : Nat) (o : CoinsObject) : Nat × Nat :=
  let tmp := countCryptocoins
  (o.mCount, tmp)

/-- Its `clear_cryptocoins(mCryptocoins)` ends with this log. -/
def ObjectClear (countCryptocoins : Nat) (o : CoinsObject) (beyond : Nat → Cryptocoin)
    (log : CoinLog) : Prop :=
  Returns (clearTurn (destroy countCryptocoins o).1) ⟨memory o.entries beyond, 0, []⟩ log

/-- **What loading a second file is for.** -/
structure SecondFile (countCryptocoins : Nat) (file : Option (List Section))
    (beyond : Nat → Cryptocoin) : Prop where
  kept : (initNewCryptocoins countCryptocoins file).countCryptocoins = countCryptocoins
  size : (initNewCryptocoins countCryptocoins file).size =
    ((initNewCryptocoins countCryptocoins file).table.getD []).length
  search : ∀ n out, ObjectSearch (construct countCryptocoins file) n out → out ≠ .outside
  clear : ∀ later log, ObjectClear later (construct countCryptocoins file) beyond log →
    ∀ i, .read i ∈ log → i < (construct countCryptocoins file).entries.length
  keptBehind : ∀ later, (destroy later (construct countCryptocoins file)).2 = later

/-- **The files for which it does it**: one that can be read, with an entry without a port among its
first 256, or with as many sections. -/
def Stops (file : Option (List Section)) : Prop :=
  ∃ sections, file = some sections ∧
    ((∃ sec ∈ sections.take 256, storedPort sec.rpcport = 0) ∨ 256 ≤ sections.length)

section Loading

variable {count : Nat} {sections : List Section} {beyond : Nat → Cryptocoin}

/-- **`*size` is right** unless the file cannot be read while the global count is not zero. -/
theorem size_right_iff (count : Nat) (file : Option (List Section)) :
    (initNewCryptocoins count file).size =
      ((initNewCryptocoins count file).table.getD []).length ↔ file ≠ none ∨ count = 0 := by
  cases file with
  | none =>
    change count = 0 ↔ _
    exact ⟨Or.inr, fun right => right.resolve_left (not_not.mpr rfl)⟩
  | some sections =>
    exact iff_of_true (initCryptocoins_length sections).symm (Or.inl (Option.some_ne_none _))

/-- The entries of an object whose file could be read. -/
theorem construct_entries :
    (construct count (some sections)).entries = initCryptocoins sections := rfl

/-- A search in such an object is the search in its table. -/
theorem objectSearch_iff {n : Bytes} {out : Search} :
    ObjectSearch (construct count (some sections)) n out ↔
      SearchByName (initCryptocoins sections) n out := by
  have same : objectTurn (construct count (some sections)) n =
      searchTurn (initCryptocoins sections) n := by
    funext i
    have length : (construct count (some sections)).mCount = (initCryptocoins sections).length :=
      (initCryptocoins_length sections).symm
    cases found : (initCryptocoins sections)[i.toNat]? with
    | none => simp only [objectTurn, searchTurn, construct_entries, found]
    | some coin => simp only [objectTurn, searchTurn, construct_entries, found, length]
  rw [ObjectSearch, same, SearchByName]

/-- Its destructor clears the table. -/
theorem objectClear_iff {later : Nat} {log : CoinLog} :
    ObjectClear later (construct count (some sections)) beyond log ↔
      ClearCryptocoins (initCryptocoins sections) beyond log := by
  have length : (destroy later (construct count (some sections))).1 =
      (initCryptocoins sections).length := (initCryptocoins_length sections).symm
  rw [ObjectClear, ClearCryptocoins, length, construct_entries]

/-- **A null table is searched outside**, whatever its count. -/
theorem objectSearch_null (n : Bytes) : ObjectSearch (construct count none) n .outside := by
  have first : objectTurn (construct count none) n 0 = .inr .outside := rfl
  exact (returns_iff_of_done first).mpr rfl

end Loading

section Stopping

variable {table : List Cryptocoin}

/-- The entries without a port are the sections whose port is stored as zero. -/
theorem portless_iff (sections : List Section) :
    (∃ coin ∈ (initCryptocoins sections).take 256, coin.rpcport = 0) ↔
      ∃ sec ∈ sections.take 256, storedPort sec.rpcport = 0 := by
  rw [initCryptocoins, ← List.map_take]
  constructor
  · rintro ⟨coin, member, port⟩
    obtain ⟨sec, inFile, rfl⟩ := List.mem_map.mp member
    exact ⟨sec, inFile, port⟩
  · rintro ⟨sec, inFile, port⟩
    exact ⟨initCryptocoin sec, List.mem_map.mpr ⟨sec, inFile, rfl⟩, port⟩

/-- A turn that looks at an entry does not read outside. -/
theorem searchTurn_inside {n : Bytes} {i : UInt8} (within : i.toNat < table.length) :
    searchTurn table n i ≠ .inr .outside := by
  rw [searchTurn, List.getElem?_eq_getElem within]
  dsimp only
  by_cases ends : table[i.toNat].rpchost = none ∨ table[i.toNat].rpcport = 0 ∨
      ¬ i.toNat < table.length
  · rw [if_pos ends]
    exact fun same => by cases same
  rw [if_neg ends]
  by_cases named : table[i.toNat].cryptocoinName = cstr n
  · rw [if_pos named]
    exact fun same => by cases same
  · rw [if_neg named]
    exact fun same => by cases same

/-- A turn that goes on was at an entry with a port. -/
theorem searchTurn_next {n : Bytes} {i next : UInt8} (within : i.toNat < table.length)
    (goes : searchTurn table n i = .inl next) : table[i.toNat].rpcport ≠ 0 ∧ next = i + 1 := by
  rw [searchTurn, List.getElem?_eq_getElem within] at goes
  dsimp only at goes
  by_cases ends : table[i.toNat].rpchost = none ∨ table[i.toNat].rpcport = 0 ∨
      ¬ i.toNat < table.length
  · rw [if_pos ends] at goes
    cases goes
  rw [if_neg ends] at goes
  by_cases named : table[i.toNat].cryptocoinName = cstr n
  · rw [if_pos named] at goes
    cases goes
  · rw [if_neg named] at goes
    exact ⟨fun port => ends (Or.inr (Or.inl port)), (Sum.inl.inj goes).symm⟩

/-- **A search stays in a table** that has an entry without a port, or one for every index. -/
theorem search_inside (stops : (scanned table < 256 ∧ scanned table < table.length) ∨
    256 ≤ table.length) {n : Bytes} {out : Search} (ends : SearchByName table n out) :
    out ≠ .outside := by
  rintro rfl
  rcases stops with ⟨short, within⟩ | long
  · have keeps : ∀ i next : UInt8, i.toNat ≤ scanned table → searchTurn table n i = .inl next →
        next.toNat ≤ scanned table := by
      intro i next reached goes
      obtain ⟨port, rfl⟩ := searchTurn_next (lt_of_le_of_lt reached within) goes
      have before : i.toNat ≠ scanned table := by
        intro last
        simp only [last] at port
        exact port (scanned_stop short within)
      have step : (i + 1).toNat = (i.toNat + 1) % 256 := UInt8.toNat_add i 1
      omega
    obtain ⟨last, reached, turn⟩ := last_of_returns (fun i : UInt8 => i.toNat ≤ scanned table)
      keeps (Nat.zero_le _) ends
    exact searchTurn_inside (lt_of_le_of_lt reached within) turn
  · obtain ⟨last, _, turn⟩ := last_of_returns (fun _ : UInt8 => True) (fun _ _ _ _ => trivial)
      trivial ends
    exact searchTurn_inside (lt_of_lt_of_le last.toNat_lt long) turn

/-- The entries that the releasing loop reads: those it gets over, and the one it stops at. -/
theorem read_mem_clearLog_iff (reads i : Nat) :
    .read i ∈ clearLog table reads ↔ i < scanned table ∨ i = scanned table % 256 := by
  rw [clearLog, List.mem_append, List.mem_append, List.mem_flatMap]
  constructor
  · rintro ((⟨entry, inRange, member⟩ | last) | array)
    · have same : i = entry := by
        simpa [clearEntry, release] using member
      exact Or.inl (same ▸ List.mem_range.mp inRange)
    · exact Or.inr (Event.read.inj (List.eq_of_mem_replicate last))
    · cases List.mem_singleton.mp array
  · rintro (below | rfl)
    · exact Or.inl (Or.inl ⟨i, List.mem_range.mpr below, List.mem_cons_self⟩)
    · exact Or.inl (Or.inr (List.mem_replicate.mpr ⟨Nat.succ_ne_zero _, rfl⟩))

/-- **The releasing loop stays in a table** exactly if a search does. -/
theorem clear_inside_iff {beyond : Nat → Cryptocoin} (hosts : ∀ coin ∈ table, coin.rpchost ≠ none) :
    (∀ log, ClearCryptocoins table beyond log → ∀ i, .read i ∈ log → i < table.length) ↔
      (scanned table < 256 ∧ scanned table < table.length) ∨ 256 ≤ table.length := by
  have bounds := scanned_le table
  obtain ⟨reads, returned⟩ := clear_returns table beyond hosts
  constructor
  · intro inside
    have last := inside _ returned _ ((read_mem_clearLog_iff reads _).mpr (Or.inr rfl))
    omega
  · intro stops log ends i member
    obtain rfl := returns_unique ends returned
    rcases (read_mem_clearLog_iff reads i).mp member with below | rfl
    · omega
    · omega

end Stopping

section Results

/-- **Loading a second file does what it is for** exactly for these files. -/
theorem secondFile_iff (count : Nat) (file : Option (List Section)) (beyond : Nat → Cryptocoin) :
    SecondFile count file beyond ↔ Stops file := by
  cases file with
  | none =>
    refine iff_of_false (fun right => ?_) fun stops => ?_
    · exact right.search btc.bytes .outside (objectSearch_null btc.bytes) rfl
    · obtain ⟨_, same, _⟩ := stops
      cases same
  | some sections =>
    have hosts : ∀ coin ∈ initCryptocoins sections, coin.rpchost ≠ none := fun _ member =>
      initCryptocoins_rpchost member
    have length := initCryptocoins_length sections
    have file : Stops (some sections) ↔ (scanned (initCryptocoins sections) < 256 ∧
        scanned (initCryptocoins sections) < (initCryptocoins sections).length) ∨
          256 ≤ (initCryptocoins sections).length := by
      rw [scanned_lt_iff, portless_iff, length]
      exact ⟨fun ⟨_, same, stops⟩ => Option.some.inj same ▸ stops, fun stops => ⟨_, rfl, stops⟩⟩
    rw [file, ← @clear_inside_iff _ beyond hosts]
    constructor
    · exact fun right log ends => right.clear count log (objectClear_iff.mpr ends)
    · intro clears
      have stops := (clear_inside_iff hosts).mp clears
      refine ⟨rfl, (size_right_iff count _).mpr (Or.inl (Option.some_ne_none _)), fun n out ends => ?_,
        fun later log ends => ?_, fun _ => rfl⟩
      · exact search_inside stops (objectSearch_iff.mp ends)
      · exact clears log (objectClear_iff.mp ends)

/-- **A file that cannot be read, after two coins were loaded**: the count of the old table is passed off
as the size of a null one, and the first search reads through it. -/
theorem missingFile_size :
    (initNewCryptocoins 2 none).size = 2 ∧ (initNewCryptocoins 2 none).table = none ∧
      ObjectSearch (construct 2 none) btc.bytes .outside ∧
      ¬ SecondFile 2 none (fun _ => initCryptocoin oneSection) :=
  ⟨rfl, rfl, objectSearch_null btc.bytes, fun right =>
    right.search btc.bytes .outside (objectSearch_null btc.bytes) rfl⟩

end Results

end Bacteria.Coins
