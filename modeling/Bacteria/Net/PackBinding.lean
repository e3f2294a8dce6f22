/-
**`lua_packData`: a Lua table as the two arrays of `packData`.**

libbacteria/lua/libnet.c. The loop pops a key and pushes the next pair of the table, copies what is a
string, and lets its arrays grow by two.

* `PackArrays` — the arrays with their capacity and length; `grow`, `put`, `close`.
* `Packer`, `packTurn` — the loop with its stack, and one turn; `packTurn_eq`, `packEntry_string`,
  `packEntry_table`, `packEntry_other` — what a turn does, by the position of its key in the table and
  the kind of the value.
* `Ready` — the invariant of a traversal that meets only steady entries: `packTurn_ready`,
  `packs_of_steady`.
-/

import Bacteria.Lib.Loop
import Bacteria.Lib.LuaTable
import Bacteria.Lib.PtrArray
import Mathlib.Algebra.Order.Ring.Int

namespace Bacteria.Net

open Clib Lua Loops

/-! ### The arrays -/

/-- `dataKeys` and `dataValues` with their capacity and their length. -/
structure PackArrays where
  dataKeys : PtrArray CString
  dataValues : PtrArray CString
  sTable : Nat
  i : Nat

/-- `sizeof(char *) * sTable + 1`. -/
def arrayBytes (sTable : Nat) : Nat := pointerSize * sTable + 1

namespace PackArrays

/-- The arrays before the loop. -/
def start : PackArrays where
  dataKeys := PtrArray.malloc (arrayBytes 1)
  dataValues := PtrArray.malloc (arrayBytes 1)
  sTable := 1
  i := 0

/-- `if (i > sTable)`: both are reallocated. -/
def grow (arrays : PackArrays) : PackArrays :=
  if arrays.i > arrays.sTable then
    let sTable := arrays.sTable + 2
    { arrays with
      sTable
      dataKeys := arrays.dataKeys.realloc (arrayBytes sTable)
      dataValues := arrays.dataValues.realloc (arrayBytes sTable) }
  else arrays

/-- The copies of a key and a value, made with `malloc(strlen + 1)` and `strcpy`. -/
def put (arrays : PackArrays) (key value : CString) : PackArrays :=
  { arrays with
    dataKeys := arrays.dataKeys.store arrays.i (some key)
    dataValues := arrays.dataValues.store arrays.i (some value)
    i := arrays.i + 1 }

/-- The two stores of NULL behind the loop. -/
def close (arrays : PackArrays) : PackArrays :=
  { arrays with
    dataKeys := arrays.dataKeys.store arrays.i none
    dataValues := arrays.dataValues.store arrays.i none }

/-- What `packData` is called with: the strings before the NULL of either array. -/
def handed (arrays : PackArrays) : Option (List CString × List CString) :=
  arrays.close.dataKeys.upToNull.bind fun keys => arrays.close.dataValues.upToNull.map fun values =>
    (keys, values)

/-- The slots the freeing loop goes through: `for (unsigned int z = sTable + 1; z--;)`. -/
def freed (arrays : PackArrays) : List Nat := (List.range ((arrays.sTable + 1) % 2 ^ 32)).reverse

/-- The arrays hold these copies, and `sTable` is the number of their entries. -/
structure Holds (arrays : PackArrays) (pairs : List (CString × CString)) : Prop where
  count : arrays.i = pairs.length
  keys : arrays.dataKeys.Filled (pairs.map Prod.fst)
  values : arrays.dataValues.Filled (pairs.map Prod.snd)
  keyEntries : arrays.dataKeys.entries = arrays.sTable
  valueEntries : arrays.dataValues.entries = arrays.sTable
  room : arrays.i ≤ arrays.sTable + 1

/-- The misplaced `+ 1` of the byte count gives no further entry. -/
theorem arrayBytes_entries (sTable : Nat) : arrayBytes sTable / pointerSize = sTable := by
  rw [arrayBytes, pointerSize]
  omega

theorem holds_start : start.Holds [] where
  count := rfl
  keys := PtrArray.filled_nil _
  values := PtrArray.filled_nil _
  keyEntries := arrayBytes_entries 1
  valueEntries := arrayBytes_entries 1
  room := Nat.zero_le _

section Steps

variable {arrays : PackArrays} {pairs : List (CString × CString)}

/-- **Growing** keeps the copies. -/
theorem Holds.grow (holds : arrays.Holds pairs) : arrays.grow.Holds pairs := by
  have room := holds.room
  have count := holds.count
  rw [PackArrays.grow]
  split
  · have fits : pairs.length ≤ arrayBytes (arrays.sTable + 2) / pointerSize := by
      rw [arrayBytes_entries]
      omega
    refine ⟨count, ?_, ?_, arrayBytes_entries _, arrayBytes_entries _, ?_⟩
    · exact holds.keys.realloc (by rwa [List.length_map])
    · exact holds.values.realloc (by rwa [List.length_map])
    · show arrays.i ≤ arrays.sTable + 2 + 1
      omega
  · exact holds

/-- What is put next is below the capacity, or right behind it. -/
theorem Holds.i_le_grow (holds : arrays.Holds pairs) : arrays.grow.i ≤ arrays.grow.sTable := by
  have room := holds.room
  rw [PackArrays.grow]
  split
  · show arrays.i ≤ arrays.sTable + 2
    omega
  · exact not_lt.mp ‹_›

/-- **One more copy** in either array. -/
theorem Holds.put (holds : arrays.Holds pairs) (bound : arrays.i ≤ arrays.sTable)
    (key value : CString) : (arrays.put key value).Holds (pairs ++ [(key, value)]) where
  count := by
    rw [List.length_append, List.length_singleton, ← holds.count]
    rfl
  keys := by
    rw [List.map_append, List.map_singleton]
    exact holds.keys.store (by rw [holds.count, List.length_map]) key
  values := by
    rw [List.map_append, List.map_singleton]
    exact holds.values.store (by rw [holds.count, List.length_map]) value
  keyEntries := holds.keyEntries
  valueEntries := holds.valueEntries
  room := Nat.succ_le_succ bound

/-- **What `packData` is called with** are the copies. -/
theorem Holds.handed (holds : arrays.Holds pairs) :
    arrays.handed = some (pairs.map Prod.fst, pairs.map Prod.snd) := by
  have keys : arrays.close.dataKeys.upToNull = some (pairs.map Prod.fst) :=
    PtrArray.upToNull_of_filled holds.keys (by rw [holds.count, List.length_map])
  have values : arrays.close.dataValues.upToNull = some (pairs.map Prod.snd) :=
    PtrArray.upToNull_of_filled holds.values (by rw [holds.count, List.length_map])
  rw [PackArrays.handed, keys, values]
  rfl

end Steps

end PackArrays

/-! ### The loop -/

/-- The state of the loop of `lua_packData`: its stack, top first, the arrays, and what happened so
far: the entries `lua_next` gave, and the values that stood at the index of the table when it was
called. -/
structure Packer (ν : Type) where
  stack : Stack ν
  arrays : PackArrays
  visited : List (Entry ν)
  expected : List (Value ν)

/-- How the loop ends: with `lua_next` at the end of a table, with a Lua error, or with a call that
Lua gives no meaning to: `lua_next` without a table at its index, `strlen` of a null pointer. -/
inductive PackEnd (ν : Type) where
  | ended (s : Packer ν)
  | raised
  | strayed

section Binding

variable {ν : Type}

/-- The state before the loop, for the arguments of a call: the nil for `lua_next` is on top. -/
def packStart (args : Stack ν) : Packer ν := ⟨push args .nil, .start, [], []⟩

variable (num : Numerals ν) (tables : Tables ν)

/-- The branches of a turn, for the pair on top. The branch for numbers is never taken: they are
strings for `lua_isstring` (`isString_of_toNumber`). -/
def packEntry (s : Packer ν) : Packer ν ⊕ PackEnd ν :=
  if (top s.stack).isString num then
    match toStringAt num s.stack 1 with
    | none => .inr .strayed
    | some (key, stack) =>
      match toStringAt num stack 0 with
      | none => .inr .strayed
      | some (value, stack) =>
        .inl { s with arrays := s.arrays.put key value, stack := pop stack 1 }
  else if (top s.stack).isTable tables then .inl { s with stack := pop (push s.stack .nil) 1 }
  else .inl { s with stack := pop s.stack 1 }

variable [DecidableEq ν]

/-- One turn of the loop. -/
def packTurn (s : Packer ν) : Packer ν ⊕ PackEnd ν :=
  let expected := s.expected ++ [s.stack.getD 1 .nil]
  match next tables s.stack with
  | .noTable => .inr .strayed
  | .invalidKey => .inr .raised
  | .finished stack => .inr (.ended { s with stack, expected })
  | .pair entry stack =>
    packEntry num tables ⟨stack, s.arrays.grow, s.visited ++ [entry], expected⟩

/-- The loop of `lua_packData` ends like this. -/
def Packs (args : Stack ν) (out : PackEnd ν) : Prop :=
  Returns (packTurn num tables) (packStart args) out

end Binding

section Branches

variable {ν : Type} {num : Numerals ν} {tables : Tables ν} {s : Packer ν} {key value table : Value ν}

theorem packEntry_string (stack : s.stack = [value, key, table]) {keyText valueText : Bytes}
    (keyString : key.toLString num = some keyText)
    (valueString : value.toLString num = some valueText) :
    packEntry num tables s = .inl
      { s with
        arrays := s.arrays.put (cstr keyText) (cstr valueText)
        stack := [.string keyText, table] } := by
  have string : (top s.stack).isString num = true := by
    rw [stack]
    show (value.toLString num).isSome = true
    rw [valueString]
    rfl
  rw [packEntry, if_pos string, stack]
  simp only [toStringAt, List.getD_cons_succ, List.getD_cons_zero, keyString, Option.map_some,
    List.set_cons_succ, List.set_cons_zero, valueString, pop, List.drop_succ_cons, List.drop_zero]

/-- A table as a value stays on the stack: what is popped is the nil pushed for it. -/
theorem packEntry_table (stack : s.stack = [value, key, table])
    (noString : value.isString num = false) (isTable : value.isTable tables = true) :
    packEntry num tables s = .inl s := by
  have noStringTop : ¬ (top s.stack).isString num = true := by
    rw [stack]
    exact Bool.not_eq_true _ ▸ noString
  have isTableTop : (top s.stack).isTable tables = true := by
    rw [stack]
    exact isTable
  rw [packEntry, if_neg noStringTop, if_pos isTableTop]
  rfl

theorem packEntry_other (stack : s.stack = [value, key, table])
    (noString : value.isString num = false) (noTable : value.isTable tables = false) :
    packEntry num tables s = .inl { s with stack := [key, table] } := by
  have noStringTop : ¬ (top s.stack).isString num = true := by
    rw [stack]
    exact Bool.not_eq_true _ ▸ noString
  have noTableTop : ¬ (top s.stack).isTable tables = true := by
    rw [stack]
    exact Bool.not_eq_true _ ▸ noTable
  rw [packEntry, if_neg noStringTop, if_neg noTableTop, stack]
  rfl

/-- A string or a number is no table. -/
theorem isTable_of_isString (string : value.isString num = true) : value.isTable tables = false := by
  cases value with
  | object identity => cases string
  | _ => rfl

end Branches

section Traversal

variable {ν : Type} [DecidableEq ν] {num : Numerals ν} {tables : Tables ν}
  (table : Traversable ν tables)

/-- The state at the branches of a turn that was given an entry. -/
def Packer.given (s : Packer ν) (table : Value ν) (entry : Entry ν) : Packer ν :=
  ⟨[entry.2, entry.1, table], s.arrays.grow, s.visited ++ [entry], s.expected ++ [table]⟩

/-- **A turn** over the table, by the position of its key. -/
theorem packTurn_eq {s : Packer ν} {key : Value ν} (stack : s.stack = [key, table.value]) :
    packTurn num tables s =
      match position table.entries key with
      | none => .inr .raised
      | some passed =>
        match table.entries[passed]? with
        | none => .inr (.ended
          { s with stack := [table.value], expected := s.expected ++ [table.value] })
        | some entry => packEntry num tables (s.given table.value entry) := by
  rw [packTurn, stack, table.next_eq]
  cases position table.entries key with
  | none => rfl
  | some passed =>
    simp only
    cases table.entries[passed]? with
    | none => rfl
    | some entry => rfl

section Turns

variable {table} {s : Packer ν} {key : Value ν} (stack : s.stack = [key, table.value])
include stack

theorem packTurn_invalidKey (elsewhere : position table.entries key = none) :
    packTurn num tables s = .inr .raised := by
  rw [packTurn_eq table stack, elsewhere]

/-- At the end of the table the loop ends. -/
theorem packTurn_atEnd (atEnd : position table.entries key = some table.entries.length) :
    packTurn num tables s = .inr (.ended
      { s with stack := [table.value], expected := s.expected ++ [table.value] }) := by
  rw [packTurn_eq table stack, atEnd]
  simp only [List.getElem?_eq_none (le_refl _)]

/-- Before an entry the branches are taken for it. -/
theorem packTurn_before {passed : Nat} (here : position table.entries key = some passed)
    {entry : Entry ν} (found : table.entries[passed]? = some entry) :
    packTurn num tables s = packEntry num tables (s.given table.value entry) := by
  rw [packTurn_eq table stack, here]
  simp only [found]

end Turns

/-! ### A traversal that gets through -/

/-- The strings of an entry whose value is a string or a number. -/
def textPair (num : Numerals ν) (entry : Entry ν) : Option (Bytes × Bytes) :=
  (entry.1.toLString num).bind fun key => (entry.2.toLString num).map fun value => (key, value)

/-- The C strings that are copied for these entries. -/
def copied (num : Numerals ν) (entries : List (Entry ν)) : List (CString × CString) :=
  (entries.filterMap (textPair num)).map fun pair => (cstr pair.1, cstr pair.2)

/-- An entry the traversal gets over: its value is no table, and its key is not converted. -/
structure Steady (num : Numerals ν) (tables : Tables ν) (entry : Entry ν) : Prop where
  flat : entry.2.isTable tables = false
  kept : entry.2.isString num = true → ∃ text, entry.1 = .string text

/-- **The invariant of a traversal**: so many entries were passed. -/
structure Ready (num : Numerals ν) (table : Traversable ν tables) (passed : Nat) (s : Packer ν) :
    Prop where
  stack : ∃ key, s.stack = [key, table.value] ∧ position table.entries key = some passed
  visited : s.visited = table.entries.take passed
  expected : ∀ value ∈ s.expected, value = table.value
  holds : s.arrays.Holds (copied num (table.entries.take passed))

theorem packStart_ready : Ready num table 0 (packStart [table.value]) where
  stack := ⟨.nil, rfl, rfl⟩
  visited := rfl
  expected value member := by cases member
  holds := PackArrays.holds_start

omit [DecidableEq ν] in
theorem copied_append_some (entries : List (Entry ν)) {entry : Entry ν} {key value : Bytes}
    (found : textPair num entry = some (key, value)) :
    copied num (entries ++ [entry]) = copied num entries ++ [(cstr key, cstr value)] := by
  simp [copied, found]

omit [DecidableEq ν] in
theorem copied_append_none (entries : List (Entry ν)) {entry : Entry ν}
    (none : textPair num entry = none) : copied num (entries ++ [entry]) = copied num entries := by
  simp [copied, none]

/-- **A steady entry is passed.** -/
theorem packTurn_ready {s : Packer ν} {passed : Nat} (ready : Ready num table passed s)
    (bound : passed < table.entries.length)
    (steady : Steady num tables table.entries[passed]) :
    ∃ after, packTurn num tables s = .inl after ∧ Ready num table (passed + 1) after := by
  obtain ⟨key, stack, here⟩ := ready.stack
  have turn : packTurn num tables s = _ :=
    packTurn_before stack here (List.getElem?_eq_getElem bound)
  have behind := (table.position_eq_some_iff bound (table.entries[passed]).1).mpr rfl
  have expected : ∀ value ∈ s.expected ++ [table.value], value = table.value := by
    intro value member
    rw [List.mem_append, List.mem_singleton] at member
    exact member.elim (ready.expected value) id
  have grown := ready.holds.grow
  have passedOne := List.take_succ_eq_append_getElem bound
  rcases entryIs : table.entries[passed] with ⟨entryKey, value⟩
  rw [entryIs] at turn behind passedOne steady
  have visited : s.visited ++ [(entryKey, value)] = table.entries.take (passed + 1) := by
    rw [passedOne, ready.visited]
  cases string : value.isString num with
  | true =>
    obtain ⟨keyText, rfl⟩ := steady.kept string
    obtain ⟨valueText, valueString⟩ := Option.isSome_iff_exists.mp string
    have pair : textPair num (.string keyText, value) = some (keyText, valueText) := by
      rw [textPair]
      simp only [valueString]
      rfl
    rw [packEntry_string rfl rfl valueString] at turn
    refine ⟨_, turn, ⟨⟨_, rfl, behind⟩, visited, expected, ?_⟩⟩
    rw [passedOne, copied_append_some _ pair]
    exact grown.put ready.holds.i_le_grow _ _
  | false =>
    have none : textPair num (entryKey, value) = none := by
      rw [textPair, Option.bind_eq_none_iff]
      intro keyText _
      rw [Option.map_eq_none_iff]
      exact Option.not_isSome_iff_eq_none.mp (Bool.not_eq_true _ ▸ string)
    rw [packEntry_other rfl string steady.flat] at turn
    refine ⟨_, turn, ⟨⟨_, rfl, behind⟩, visited, expected, ?_⟩⟩
    rw [passedOne, copied_append_none _ none]
    exact grown

/-- **A traversal of steady entries ends**, from wherever it stands. -/
theorem returns_of_ready (steady : ∀ entry ∈ table.entries, Steady num tables entry)
    {passed : Nat} {s : Packer ν} (ready : Ready num table passed s)
    (bound : passed ≤ table.entries.length) :
    ∃ last, Ready num table table.entries.length last ∧
      Returns (packTurn num tables) s (.ended
        { last with stack := [table.value], expected := last.expected ++ [table.value] }) := by
  induction remaining : table.entries.length - passed generalizing passed s with
  | zero =>
    obtain rfl : passed = table.entries.length := by omega
    obtain ⟨key, stack, atEnd⟩ := ready.stack
    exact ⟨s, ready, (returns_iff_of_done (packTurn_atEnd stack atEnd)).mpr rfl⟩
  | succ remaining ih =>
    have below : passed < table.entries.length := by omega
    obtain ⟨after, turn, next⟩ :=
      packTurn_ready table ready below (steady _ (List.getElem_mem below))
    obtain ⟨last, done, returns⟩ := ih next below (by omega)
    exact ⟨last, done, (returns_iff_of_next turn).mpr returns⟩

/-- **What a call leaves** for a table of steady entries. -/
theorem packs_of_steady (steady : ∀ entry ∈ table.entries, Steady num tables entry) :
    ∃ final, Packs num tables [table.value] (.ended final) ∧ final.visited = table.entries ∧
      (∀ value ∈ final.expected, value = table.value) ∧
      final.arrays.Holds (copied num table.entries) := by
  obtain ⟨last, ready, returns⟩ :=
    returns_of_ready table steady (packStart_ready table) (Nat.zero_le _)
  have visited := ready.visited
  have holds := ready.holds
  rw [List.take_length] at visited holds
  refine ⟨_, returns, visited, fun value member => ?_, holds⟩
  rw [List.mem_append, List.mem_singleton] at member
  exact member.elim (ready.expected value) id

end Traversal

end Bacteria.Net
