/-
**What `lua_packData` visits of a table.**

* `packTurn_given`, `ended_cases` — one turn of a traversal that ends.
* `visited_flat`, `visited_avoids` — two inductions over such a traversal: it has met no table as a
  value, and an entry behind a converted key was not visited.
* `Traverses` — every entry is visited once, the table is always where `lua_next` expects it, and the
  strings of the entries are handed to `packData`; `traverses_iff` — for which tables.
-/

import Bacteria.Net.PackBinding

namespace Bacteria.Net

open Clib Lua Loops

section Traversal

variable {ν : Type} [DecidableEq ν] {num : Numerals ν} {tables : Tables ν}
  (table : Traversable ν tables)

/-- The key a turn leaves on the stack for an entry: `lua_tostring` converts it in its place. -/
def keyLeft (num : Numerals ν) (entry : Entry ν) : Value ν :=
  if entry.2.isString num then .string ((entry.1.toLString num).getD []) else entry.1

omit [DecidableEq ν] in
theorem plainKey_toLString {key : Value ν} (plain : key.isPlainKey = true) :
    ∃ text, key.toLString num = some text := by
  cases key with
  | string text => exact ⟨text, rfl⟩
  | number n => exact ⟨_, rfl⟩
  | _ => cases plain

/-- **A turn that was given an entry**: without a table as its value, the key that was left is on top
of the table; with one, the next `lua_next` has no table at its index. -/
theorem packTurn_given {s : Packer ν} {key : Value ν} (stack : s.stack = [key, table.value])
    {passed : Nat} (here : position table.entries key = some passed) {entry : Entry ν}
    (found : table.entries[passed]? = some entry) :
    ∃ after, packTurn num tables s = .inl after ∧
      (entry.2.isTable tables = false ∧ after.stack = [keyLeft num entry, table.value] ∧
          after.visited = s.visited ++ [entry] ∨
        packTurn num tables after = .inr .strayed) := by
  have member := List.mem_of_getElem? found
  have turn : packTurn num tables s = _ := packTurn_before stack here found
  obtain ⟨entryKey, value⟩ := entry
  cases string : value.isString num with
  | true =>
    obtain ⟨keyText, keyString⟩ := @plainKey_toLString ν num _ (table.plain _ member)
    obtain ⟨valueText, valueString⟩ := Option.isSome_iff_exists.mp string
    rw [packEntry_string rfl keyString valueString] at turn
    refine ⟨_, turn, Or.inl ⟨isTable_of_isString string, ?_, rfl⟩⟩
    rw [keyLeft, if_pos string, keyString, Option.getD_some]
  | false =>
    cases isTable : value.isTable tables with
    | true =>
      rw [packEntry_table rfl string isTable] at turn
      refine ⟨_, turn, Or.inr ?_⟩
      have noTable := table.key_entries? member
      simp only [packTurn, next, Packer.given, noTable]
    | false =>
      rw [packEntry_other rfl string isTable] at turn
      refine ⟨_, turn, Or.inl ⟨rfl, ?_, rfl⟩⟩
      rw [keyLeft, if_neg (Bool.not_eq_true _ ▸ string)]

/-- **One turn of a traversal that ends**: it finds the end of the table, or an entry that is no
table, and goes on from there. -/
theorem ended_cases {fuel : Nat} {s final : Packer ν} {key : Value ν}
    (stack : s.stack = [key, table.value])
    (ends : loop (packTurn num tables) fuel s = some (.ended final)) :
    (position table.entries key = some table.entries.length ∧ final.visited = s.visited) ∨
      ∃ less after passed entry, fuel = less + 1 ∧
        position table.entries key = some passed ∧ table.entries[passed]? = some entry ∧
        entry.2.isTable tables = false ∧ after.stack = [keyLeft num entry, table.value] ∧
        after.visited = s.visited ++ [entry] ∧
        loop (packTurn num tables) less after = some (.ended final) := by
  cases fuel with
  | zero => cases ends
  | succ less =>
    rw [loop] at ends
    cases here : position table.entries key with
    | none =>
      rw [packTurn_invalidKey stack here] at ends
      cases ends
    | some passed =>
      cases found : table.entries[passed]? with
      | none =>
        have beyond := List.getElem?_eq_none_iff.mp found
        obtain rfl := le_antisymm (table.position_le here) beyond
        rw [packTurn_atEnd stack here] at ends
        obtain rfl := PackEnd.ended.inj (Option.some.inj ends)
        exact Or.inl ⟨rfl, rfl⟩
      | some entry =>
        obtain ⟨after, turned, goes⟩ := @packTurn_given ν _ num tables table _ _ stack _ here _ found
        rw [turned] at ends
        simp only at ends
        rcases goes with ⟨flat, next, visited⟩ | strayed
        · exact Or.inr ⟨less, after, passed, entry, rfl, rfl, found, flat, next, visited, ends⟩
        · cases less with
          | zero => cases ends
          | succ less =>
            rw [loop, strayed] at ends
            cases ends

/-- **A traversal that ends has met no table.** -/
theorem visited_flat {fuel : Nat} {s final : Packer ν} {key : Value ν}
    (stack : s.stack = [key, table.value])
    (ends : loop (packTurn num tables) fuel s = some (.ended final)) :
    ∀ entry ∈ final.visited, entry ∈ s.visited ∨ entry.2.isTable tables = false := by
  induction fuel generalizing s key with
  | zero => cases ends
  | succ fuel ih =>
    intro entry member
    rcases ended_cases table stack ends with
      ⟨_, same⟩ | ⟨less, after, passed, given, one, _, _, flat, next, visited, rest⟩
    · exact Or.inl (same ▸ member)
    · obtain rfl := Nat.succ.inj one
      rcases ih next rest entry member with before | isFlat
      · rw [visited, List.mem_append, List.mem_singleton] at before
        exact before.imp_right fun same => by rwa [same]
      · exact Or.inr isFlat

/-- **Behind a converted key nothing is visited**, and the end of the table is not found there. -/
theorem visited_avoids {index : Nat} (bound : index < table.entries.length)
    (string : (table.entries[index]).2.isString num = true)
    (converted : ∀ text, (table.entries[index]).1 ≠ .string text) {fuel : Nat}
    {s final : Packer ν} {key : Value ν} (stack : s.stack = [key, table.value])
    (elsewhere : position table.entries key ≠ some (index + 1))
    (ends : loop (packTurn num tables) fuel s = some (.ended final)) :
    index + 1 ≠ table.entries.length ∧
      ∀ entry ∈ final.visited, entry ∈ s.visited ∨ table.entries[index + 1]? ≠ some entry := by
  induction fuel generalizing s key with
  | zero => cases ends
  | succ fuel ih =>
    rcases ended_cases table stack ends with
      ⟨here, same⟩ | ⟨less, after, passed, given, one, here, found, _, next, visited, rest⟩
    · refine ⟨fun last => elsewhere (here.trans (congrArg some last.symm)), fun entry member => ?_⟩
      exact Or.inl (same ▸ member)
    · obtain rfl := Nat.succ.inj one
      have inside : passed < table.entries.length := (List.getElem?_eq_some_iff.mp found).1
      have entryIs : table.entries[passed] = given := (List.getElem?_eq_some_iff.mp found).2
      have stillElsewhere : position table.entries (keyLeft num given) ≠ some (index + 1) := by
        intro reached
        have same := (table.position_eq_some_iff bound _).mp reached
        rw [keyLeft] at same
        split at same
        · exact converted _ same.symm
        · rename_i noString
          rw [← entryIs] at same noString
          have positions := (table.position_eq_some_iff inside _).mpr rfl
          rw [same, (table.position_eq_some_iff bound _).mpr rfl] at positions
          obtain rfl := Nat.succ.inj (Option.some.inj positions)
          exact noString string
      obtain ⟨notLast, avoids⟩ := ih next stillElsewhere rest
      refine ⟨notLast, fun entry member => ?_⟩
      rcases avoids entry member with before | different
      · rw [visited, List.mem_append, List.mem_singleton] at before
        refine before.imp_right fun same behind => ?_
        have equal : table.entries[passed]? = table.entries[index + 1]? := by
          rw [behind, found, same]
        obtain rfl := (List.getElem?_inj inside table.nodup).mp equal
        exact elsewhere here
      · exact Or.inr different

/-! ### The traversal as a whole -/

/-- What `packData` is called with, as texts. -/
def PackArrays.texts (arrays : PackArrays) : Option (List (Bytes × Bytes)) :=
  arrays.handed.map fun strings =>
    List.zip (strings.1.map CString.bytes) (strings.2.map CString.bytes)

/-- **Every entry is visited once**: the loop ends, `lua_next` gave every entry of the table once and
always found the table, and `packData` is handed the strings of the entries that have some. -/
def Traverses (num : Numerals ν) (table : Traversable ν tables) : Prop :=
  ∃ final, Packs num tables [table.value] (.ended final) ∧ final.visited.Perm table.entries ∧
    (∀ value ∈ final.expected, value = table.value) ∧
    ∃ texts, final.arrays.texts = some texts ∧
      texts.Perm (table.entries.filterMap (textPair num))

/-- An entry that is visited and handed on as it is: no table, no number as a key of a string, no NUL
in its strings. -/
structure Packable (num : Numerals ν) (tables : Tables ν) (entry : Entry ν) : Prop extends
    Steady num tables entry where
  clean : ∀ pair, textPair num entry = some pair → (0 : Byte) ∉ pair.1 ∧ (0 : Byte) ∉ pair.2

omit [DecidableEq ν] in
/-- What is handed on holds no NUL. -/
theorem texts_noNul {arrays : PackArrays} {texts : List (Bytes × Bytes)}
    (found : arrays.texts = some texts) {pair : Bytes × Bytes} (member : pair ∈ texts) :
    (0 : Byte) ∉ pair.1 ∧ (0 : Byte) ∉ pair.2 := by
  obtain ⟨strings, _, rfl⟩ := Option.map_eq_some_iff.mp found
  obtain ⟨inKeys, inValues⟩ := List.of_mem_zip member
  obtain ⟨key, _, keyIs⟩ := List.mem_map.mp inKeys
  obtain ⟨value, _, valueIs⟩ := List.mem_map.mp inValues
  rw [← keyIs, ← valueIs]
  exact ⟨key.noNul, value.noNul⟩

omit [DecidableEq ν] in
/-- The copies of clean strings are these strings. -/
theorem texts_of_holds {arrays : PackArrays} {entries : List (Entry ν)}
    (holds : arrays.Holds (copied num entries))
    (clean : ∀ entry ∈ entries, ∀ pair, textPair num entry = some pair →
      (0 : Byte) ∉ pair.1 ∧ (0 : Byte) ∉ pair.2) :
    arrays.texts = some (entries.filterMap (textPair num)) := by
  have same : ∀ pairs : List (Bytes × Bytes),
      (∀ pair ∈ pairs, (0 : Byte) ∉ pair.1 ∧ (0 : Byte) ∉ pair.2) →
      List.zip (pairs.map fun pair => (cstr pair.1).bytes)
        (pairs.map fun pair => (cstr pair.2).bytes) = pairs := by
    intro pairs noNul
    rw [List.zip_map']
    refine (List.map_congr_left fun pair member => ?_).trans (List.map_id pairs)
    obtain ⟨key, value⟩ := noNul pair member
    rw [(cstr_eq_iff _).mpr key, (cstr_eq_iff _).mpr value]
    rfl
  rw [PackArrays.texts, holds.handed, Option.map_some, copied]
  simp only [List.map_map]
  refine congrArg some (same _ fun pair member => ?_)
  obtain ⟨entry, inEntries, found⟩ := List.mem_filterMap.mp member
  exact clean entry inEntries pair found

/-- **A table of packable entries is traversed.** -/
theorem traverses_of_packable (packable : ∀ entry ∈ table.entries, Packable num tables entry) :
    Traverses num table := by
  obtain ⟨final, packs, visited, expected, holds⟩ :=
    packs_of_steady table fun entry member => (packable entry member).toSteady
  have texts := texts_of_holds holds fun entry member => (packable entry member).clean
  exact ⟨final, packs, visited ▸ List.Perm.refl _, expected, _, texts, List.Perm.refl _⟩

/-- **What a traversed table looks like.** -/
theorem packable_of_traverses (traverses : Traverses num table) {entry : Entry ν}
    (member : entry ∈ table.entries) : Packable num tables entry := by
  obtain ⟨final, ⟨fuel, ends⟩, visited, _, texts, handed, whole⟩ := traverses
  obtain ⟨index, bound, rfl⟩ := List.getElem_of_mem member
  have start : (packStart [table.value]).stack = [.nil, table.value] := rfl
  refine ⟨⟨?_, fun string => ?_⟩, fun pair found => ?_⟩
  · have flat := visited_flat table start ends _ (visited.mem_iff.mpr member)
    exact flat.resolve_left List.not_mem_nil
  · by_contra converted
    have elsewhere : position table.entries .nil ≠ some (index + 1) := by
      rw [position, if_pos rfl]
      intro same
      cases Option.some.inj same
    obtain ⟨notLast, avoids⟩ := visited_avoids table bound string
      (fun text same => converted ⟨text, same⟩) start elsewhere ends
    have behind : index + 1 < table.entries.length := by omega
    have seen := avoids _ (visited.mem_iff.mpr (List.getElem_mem behind))
    exact (seen.resolve_left List.not_mem_nil) (List.getElem?_eq_getElem behind)
  · have listed := List.mem_filterMap.mpr ⟨_, member, found⟩
    exact texts_noNul handed (whole.mem_iff.mpr listed)

/-- **Which tables are traversed**: those of packable entries. -/
theorem traverses_iff (num : Numerals ν) (table : Traversable ν tables) :
    Traverses num table ↔ ∀ entry ∈ table.entries, Packable num tables entry :=
  ⟨fun traverses _ member => packable_of_traverses table traverses member,
    traverses_of_packable table⟩

end Traversal

/-! ### Tables that are not traversed -/

/-- `{"a"}`: a number is the key of a string. -/
def listEntries : List (Entry Int) := [(.number 1, .string (ascii "a"))]

def listTable : Traversable Int (oneTable listEntries) :=
  .only listEntries (by decide) (by decide)

/-- `{key = t}`: a table is a value, here the table itself. -/
def nestedEntries : List (Entry Int) := [(.string (ascii "key"), .object 0)]

def nestedTable : Traversable Int (oneTable nestedEntries) :=
  .only nestedEntries (by decide) (by decide)

/-- **A list is not traversed, and a table in a table is not**: the first raises an error, the second
calls `lua_next` on a string. -/
theorem tables_not_traversed :
    (Packs Numerals.integers (oneTable listEntries) [listTable.value] .raised ∧
      ¬ Traverses Numerals.integers listTable) ∧
    Packs Numerals.integers (oneTable nestedEntries) [nestedTable.value] .strayed ∧
      ¬ Traverses Numerals.integers nestedTable := by
  refine ⟨⟨⟨2, rfl⟩, fun traverses => ?_⟩, ⟨2, rfl⟩, fun traverses => ?_⟩
  · obtain ⟨text, same⟩ :=
      (packable_of_traverses listTable traverses (List.mem_singleton_self _)).kept rfl
    cases same
  · have flat := (packable_of_traverses nestedTable traverses (List.mem_singleton_self _)).flat
    cases flat

end Bacteria.Net
