/-
**`unpackData` over its memory: what it writes and what it leaves behind.**

`unpackMemory` is the call with the memory behind its text, the array `rVal` as a block of pointers,
which `malloc` may refuse, and every string as a block of bytes, for any splitters, NUL included.

* `unpackMemory_eq_unpackData` — for splitters other than NUL it returns the blocks of `unpackData`.
* `unpackLoop_stores`, `unpackLoop_filled` — one induction over the pieces: the slots that are
  written, and what stands in them.
* `FitsAllocations` — every store and every byte is inside its allocation, and every returned string
  is terminated inside its block.
* `fitsAllocations_iff` — when an accepted message has that.
-/

import Bacteria.Lib.PtrArray
import Bacteria.Net.PackData
import Bacteria.Net.SplitCopy

namespace Bacteria.Net

open Clib

/-! ### The blocks of one piece -/

/-- `strchr(piece, fsplitter)`: what lies before the byte found and what lies behind it, up to and
with the terminator, which is itself a byte that can be found. -/
def findSplitter (fsplitter : Byte) (piece : Bytes) : Option (Bytes × Bytes) :=
  cut fsplitter (piece ++ [0])

/-- What a piece without `fsplitter` is stored as, twice. -/
def markBlock : Block := (Block.malloc 1).write 0 [ignoreInfoByte]

/-- The block stored in `rVal[z]`. -/
def keyBlock (fsplitter : Byte) (piece : Bytes) : Block :=
  match findSplitter fsplitter piece with
  | none => markBlock
  | some (key, _) =>
    let s1 := key.length
    ((Block.malloc (s1 + 1)).bzero (s1 + 1)).write 0 key

/-- The block stored in `rVal[z + 1]`. -/
def valueBlock (fsplitter : Byte) (piece : Bytes) : Block :=
  match findSplitter fsplitter piece with
  | none => markBlock
  | some (_, behind) =>
    let s2 := behind.length
    ((Block.malloc (s2 + 1)).bzero (s2 + 1)).write 0 behind

/-- The state of `unpackData`'s second loop. -/
structure Unpacking where
  rVal : PtrArray Block
  z : Nat

/-- One turn of the second loop. -/
def unpackTurn (fsplitter : Byte) (state : Unpacking) (piece : Bytes) : Unpacking :=
  let rVal := state.rVal.store state.z (some (keyBlock fsplitter piece))
  let rVal := rVal.store (state.z + 1) (some (valueBlock fsplitter piece))
  ⟨rVal, state.z + 2⟩

/-- `sizeof(char **) * (*rt_size)`, in a `size_t`: the bytes `rVal` is allocated with. -/
def rValBytes (rtSize : Nat) : Nat := pointerSize * rtSize % 2 ^ 64

/-- How a call ends: with NULL, with the array and the new `*rt_size`, or in undefined behaviour: a read
past the text or past `str2` inside `split_msg`, or a store through a NULL `rVal`. -/
inductive UnpackResult where
  | null
  | undefined
  | returned (rVal : PtrArray Block) (rtSize : Nat)

/-- `unpackData(data, rt_size, fsplitter, ssplitter)`, with `behind` in the memory after the text. The
array is what `malloc` gives of it; the strings, no longer than the text, are granted. -/
def unpackMemory (alloc : Allocator) (data : CString) (behind : Bytes) (rtSize : Nat)
    (fsplitter ssplitter : Byte) : UnpackResult :=
  let count := countSplitters fsplitter ssplitter data.bytes
  if count.sSplitter ≠ count.fSplitter then .null
  else
    match splitCopying (data.bytes ++ 0 :: behind) ssplitter count.sData with
    | none => .undefined
    | some ssplitted =>
      if alloc.grants (rValBytes rtSize) then
        let rVal := PtrArray.malloc (rValBytes rtSize)
        -- the pieces are taken from the last one down
        let state := ssplitted.splitted.reverse.foldl (unpackTurn fsplitter) ⟨rVal, 0⟩
        .returned state.rVal (ssplitted.arrSize * 2)
      -- the result of `malloc` is not looked at: the first piece is stored through NULL
      else if ssplitted.splitted = [] then .null
      else .undefined

/-- The string `strlen` finds behind a slot, `none` when the slot is not set or no NUL is in its
block. -/
def slotString (rVal : PtrArray Block) (slot : Nat) : Option Bytes :=
  match rVal.cells slot with
  | some (some block) => block.cString?
  | _ => none

/-- The loop of `lua_unpackData` over the pairs from slot `i` on; `none` when a `strlen` leaves its
block. -/
def luaPairs (rVal : PtrArray Block) (i : Nat) : Nat → Option (List (Bytes × Bytes))
  | 0 => some []
  | turns + 1 =>
    match slotString rVal i, slotString rVal (i + 1) with
    | some key, some value => (luaPairs rVal (i + 2) turns).map ((key, value) :: ·)
    | _, _ => none

/-- How `lua_unpackData` ends: with the error `bad packed data`, in undefined behaviour, or with the
pairs it sets in its table. -/
inductive LuaUnpacked where
  | error
  | undefined
  | table (pairs : List (Bytes × Bytes))

/-- `lua_unpackData`; `rtSize` is what the uninitialised `rt_size` happens to hold. -/
def luaUnpackData (alloc : Allocator) (packedData : CString) (behind : Bytes) (rtSize : Nat)
    (fsplitter ssplitter : Byte) : LuaUnpacked :=
  match unpackMemory alloc packedData behind rtSize fsplitter ssplitter with
  | .null => .error
  | .undefined => .undefined
  | .returned rv rtSize =>
    match luaPairs rv 0 ((rtSize + 1) / 2) with
    | some pairs => .table pairs
    | none => .undefined

/-- **The results of a call fit**: `rVal`'s slots are below the entries it was allocated for, the
bytes of every string are inside the string's block, and every string `*rt_size` counts is terminated
there. A call that returns NULL stores nothing. -/
def FitsAllocations (alloc : Allocator) (data : CString) (behind : Bytes) (rtSize : Nat)
    (fsplitter ssplitter : Byte) : Prop :=
  match unpackMemory alloc data behind rtSize fsplitter ssplitter with
  | .null => True
  | .undefined => False
  | .returned rVal newSize =>
    rVal.InBounds ∧ ∀ index < newSize, ∃ block, rVal.cells index = some (some block) ∧
      block.InBounds ∧ ∃ text, block.cString? = some text

theorem findSplitter_nul {piece : Bytes} (clean : (0 : Byte) ∉ piece) :
    findSplitter 0 piece = some (piece, []) := cut_append clean []

theorem findSplitter_eq {fsplitter : Byte} (notNul : fsplitter ≠ 0) (piece : Bytes) :
    findSplitter fsplitter piece =
      (cut fsplitter piece).map fun parts => (parts.1, parts.2 ++ [0]) := by
  rw [findSplitter]
  cases found : cut fsplitter piece with
  | none =>
    rw [Option.map_none, cut_eq_none, List.mem_append, List.mem_singleton, not_or]
    exact ⟨cut_eq_none.mp found, notNul⟩
  | some parts =>
    obtain ⟨clean, shape⟩ := cut_eq_some.mp found
    rw [shape, List.append_assoc, List.cons_append, cut_append clean]
    rfl

/-- A key and a value, as `strchr` cuts them out of a terminated piece. -/
theorem findSplitter_some {fsplitter : Byte} {piece key behind : Bytes}
    (clean : (0 : Byte) ∉ piece) (found : findSplitter fsplitter piece = some (key, behind)) :
    (0 : Byte) ∉ key ∧ (behind = [] ∨ ∃ value, (0 : Byte) ∉ value ∧ behind = value ++ [0]) := by
  by_cases nul : fsplitter = 0
  · rw [nul, findSplitter_nul clean] at found
    obtain ⟨rfl, rfl⟩ := Prod.mk.inj (Option.some.inj found)
    exact ⟨clean, Or.inl rfl⟩
  · rw [findSplitter_eq nul] at found
    obtain ⟨⟨before, value⟩, here, same⟩ := Option.map_eq_some_iff.mp found
    obtain ⟨rfl, rfl⟩ := Prod.mk.inj same
    obtain ⟨_, rfl⟩ := cut_eq_some.mp here
    rw [List.mem_append, List.mem_cons, not_or, not_or] at clean
    exact ⟨clean.1, Or.inr ⟨value, clean.2.2, rfl⟩⟩

/-- `strchr` finds nothing when `fsplitter` is neither NUL nor in the piece. -/
theorem findSplitter_eq_none {fsplitter : Byte} {piece : Bytes} :
    findSplitter fsplitter piece = none ↔ ¬ (fsplitter = 0 ∨ fsplitter ∈ piece) := by
  rw [findSplitter, cut_eq_none, List.mem_append, List.mem_singleton, or_comm]

/-! ### A block for each string -/

/-- A block is written inside, and its string ends inside. -/
def HoldsString (block : Block) : Prop := block.InBounds ∧ ∃ text, block.cString? = some text

theorem markBlock_not_holdsString : ¬ HoldsString markBlock := by
  rintro ⟨_, text, found⟩
  have unterminated : markBlock.cString? = none := rfl
  rw [unterminated] at found
  cases found

/-- A zeroed block takes a text that is shorter than it. -/
theorem zeroed_inBounds (text : Bytes) :
    (((Block.malloc (text.length + 1)).bzero (text.length + 1)).write 0 text).InBounds := by
  rw [Block.inBounds_write, Block.bzero, Block.inBounds_write, List.length_replicate]
  simp only [Block.write_size, Block.malloc_size]
  exact ⟨⟨Block.inBounds_malloc _, by omega⟩, by omega⟩

/-- A splitter that `strchr` finds is NUL or in the piece. -/
theorem present_of_findSplitter {fsplitter : Byte} {piece : Bytes} {parts : Bytes × Bytes}
    (found : findSplitter fsplitter piece = some parts) : fsplitter = 0 ∨ fsplitter ∈ piece := by
  by_contra missing
  rw [findSplitter_eq_none.mpr missing] at found
  cases found

theorem keyBlock_holdsString {fsplitter : Byte} {piece : Bytes} (clean : (0 : Byte) ∉ piece) :
    HoldsString (keyBlock fsplitter piece) ↔ fsplitter = 0 ∨ fsplitter ∈ piece := by
  cases found : findSplitter fsplitter piece with
  | none =>
    simp only [keyBlock, found, markBlock_not_holdsString, false_iff]
    exact findSplitter_eq_none.mp found
  | some parts =>
    obtain ⟨key, behind⟩ := parts
    have keyClean := (findSplitter_some clean found).1
    simp only [keyBlock, found, present_of_findSplitter found, iff_true]
    exact ⟨zeroed_inBounds key, key, Block.cString?_of_zeroed keyClean (Nat.lt_succ_self _)⟩

theorem valueBlock_holdsString {fsplitter : Byte} {piece : Bytes} (clean : (0 : Byte) ∉ piece) :
    HoldsString (valueBlock fsplitter piece) ↔ fsplitter = 0 ∨ fsplitter ∈ piece := by
  cases found : findSplitter fsplitter piece with
  | none =>
    simp only [valueBlock, found, markBlock_not_holdsString, false_iff]
    exact findSplitter_eq_none.mp found
  | some parts =>
    obtain ⟨key, behind⟩ := parts
    simp only [valueBlock, found, present_of_findSplitter found, iff_true]
    refine ⟨zeroed_inBounds behind, ?_⟩
    rcases (findSplitter_some clean found).2 with rfl | ⟨value, valueClean, rfl⟩
    · exact ⟨[], Block.cString?_of_zeroed List.not_mem_nil (Nat.lt_succ_self _)⟩
    · refine ⟨value, Block.cString?_of_holds valueClean (Block.holds_write _ 0 _) ?_⟩
      show value.length < (value ++ [0]).length + 1
      rw [List.length_append, List.length_singleton]
      omega

/-! ### The second loop -/

/-- The blocks made of the pieces, in the order of the slots. -/
def fieldBlocks (fsplitter : Byte) (pieces : List Bytes) : List Block :=
  pieces.flatMap fun piece => [keyBlock fsplitter piece, valueBlock fsplitter piece]

theorem fieldBlocks_length (fsplitter : Byte) (pieces : List Bytes) :
    (fieldBlocks fsplitter pieces).length = 2 * pieces.length := by
  simp [fieldBlocks, List.length_flatMap, Nat.mul_comm]

/-- **The slots the loop writes**: two for each piece, one after the other from `z` on. -/
theorem unpackLoop_stores (fsplitter : Byte) (pieces : List Bytes) (state : Unpacking) :
    (pieces.foldl (unpackTurn fsplitter) state).rVal.stores =
      state.rVal.stores ++
        (List.range' state.z (2 * pieces.length)).map fun slot => ⟨slot, state.rVal.entries⟩ := by
  induction pieces generalizing state with
  | nil => simp
  | cons piece pieces ih =>
    have two : 2 * (piece :: pieces).length = 2 * pieces.length + 1 + 1 := by
      rw [List.length_cons]
      omega
    rw [List.foldl_cons, ih, two, List.range'_succ, List.range'_succ]
    simp [unpackTurn, PtrArray.store, PtrArray.entries]

/-- The array stays in bounds exactly if it has two entries for each piece. -/
theorem unpackLoop_inBounds (fsplitter : Byte) (pieces : List Bytes) (bytes : Nat) :
    (pieces.foldl (unpackTurn fsplitter) ⟨PtrArray.malloc bytes, 0⟩).rVal.InBounds ↔
      2 * pieces.length ≤ bytes / pointerSize := by
  simp only [PtrArray.InBounds, unpackLoop_stores, PtrArray.malloc_entries, List.mem_append,
    List.mem_map, List.mem_range'_1]
  constructor
  · intro inside
    by_contra few
    have short : bytes / pointerSize < 2 * pieces.length := not_le.mp few
    have positive := Nat.lt_of_le_of_lt (Nat.zero_le _) short
    have last := inside ⟨2 * pieces.length - 1, bytes / pointerSize⟩
      (Or.inr ⟨2 * pieces.length - 1, ⟨by omega, by omega⟩, rfl⟩)
    simp only at last
    omega
  · rintro room s (old | ⟨slot, ⟨_, below⟩, rfl⟩)
    · cases old
    · simp only
      omega

/-- **What stands in the slots**: from an array filled with blocks, those of the pieces follow. -/
theorem unpackLoop_filled (fsplitter : Byte) (pieces : List Bytes) {state : Unpacking}
    {blocks : List Block} (filled : state.rVal.Filled blocks) (behind : state.z = blocks.length) :
    (pieces.foldl (unpackTurn fsplitter) state).rVal.Filled
      (blocks ++ fieldBlocks fsplitter pieces) := by
  induction pieces generalizing state blocks with
  | nil => simpa [fieldBlocks] using filled
  | cons piece pieces ih =>
    have next : state.z + 1 = (blocks ++ [keyBlock fsplitter piece]).length := by simp [behind]
    have stored : (unpackTurn fsplitter state piece).rVal.Filled
        (blocks ++ [keyBlock fsplitter piece] ++ [valueBlock fsplitter piece]) :=
      (filled.store behind (keyBlock fsplitter piece)).store next (valueBlock fsplitter piece)
    have rest := ih stored (by simp [unpackTurn, behind])
    simpa [fieldBlocks] using rest

theorem unpackLoop_filled_malloc (fsplitter : Byte) (pieces : List Bytes) (bytes : Nat) :
    (pieces.foldl (unpackTurn fsplitter) ⟨PtrArray.malloc bytes, 0⟩).rVal.Filled
      (fieldBlocks fsplitter pieces) :=
  unpackLoop_filled fsplitter pieces (PtrArray.filled_nil _) rfl

/-! ### The call -/

theorem strchr_nul {text : Bytes} (clean : (0 : Byte) ∉ text) (behind : Bytes) :
    strchr 0 (text ++ 0 :: behind) = some (some (text, behind)) := by
  induction text with
  | nil => rfl
  | cons b text ih =>
    have different : b ≠ 0 := fun zero => clean (by simp [zero])
    have tailClean : (0 : Byte) ∉ text := fun member => clean (List.mem_cons_of_mem _ member)
    rw [List.cons_append, strchr, if_neg different, if_neg different, ih tailClean]
    rfl

/-- With NUL as `ssplitter` the whole text is a piece: it fills `str2` up, and `strlen(str2)` reads on
behind it. -/
theorem splitCopying_nul (data : CString) (behind : Bytes) :
    splitCopying (data.bytes ++ 0 :: behind) 0 data.strlen = none := by
  have full : (((Block.malloc data.strlen).bzero data.strlen).write 0 data.bytes).cString? = none :=
    Block.cString?_of_full data.noNul (Block.holds_write _ 0 _) rfl
  rw [splitCopying, maxSplitted, splitTurns, separatorIn, strchr_nul data.noNul]
  simp only [full]

section Call

variable {data : CString} {fsplitter ssplitter : Byte} {alloc : Allocator}

/-- An accepted message is split, and its pieces are stored from the last one down. -/
theorem unpackMemory_eq (distinct : fsplitter ≠ ssplitter)
    (accepts : data.bytes.count ssplitter = data.bytes.count fsplitter) (notNul : ssplitter ≠ 0)
    (behind : Bytes) (rtSize : Nat) :
    let split := (pieces ssplitter data.bytes).take maxSplitted
    unpackMemory alloc data behind rtSize fsplitter ssplitter =
      if alloc.grants (rValBytes rtSize) then
        .returned (split.reverse.foldl (unpackTurn fsplitter)
          ⟨PtrArray.malloc (rValBytes rtSize), 0⟩).rVal (2 * split.length)
      else if split = [] then .null
      else .undefined := by
  obtain ⟨out, ends, splitted, size, _⟩ :=
    splitCopying_eq_splitMsg data notNul behind (le_refl data.strlen)
  rw [splitMsg_bytes] at splitted
  rw [CString.strlen] at ends
  simp only [unpackMemory, countSplitters_eq distinct, accepts, ne_eq, not_true_eq_false, if_false,
    ends, size, splitted, Nat.mul_comm]

/-- **For splitters other than NUL** the call returns the blocks of `unpackData`, in an array of as
many slots, when `malloc` grants it. -/
theorem unpackMemory_eq_unpackData (distinct : fsplitter ≠ ssplitter)
    (accepts : data.bytes.count ssplitter = data.bytes.count fsplitter) (fNotNul : fsplitter ≠ 0)
    (sNotNul : ssplitter ≠ 0) (behind : Bytes) {rtSize : Nat}
    (granted : alloc.grants (rValBytes rtSize)) :
    ∃ unpacked rVal, unpackData data fsplitter ssplitter = some unpacked ∧
      unpackMemory alloc data behind rtSize fsplitter ssplitter =
        .returned rVal unpacked.rtSize ∧
      rVal.Filled unpacked.rVal := by
  have blocks : ∀ piece : CString,
      [keyBlock fsplitter piece.bytes, valueBlock fsplitter piece.bytes] =
        unpackField fsplitter piece := by
    intro piece
    cases found : cut fsplitter piece.bytes with
    | none =>
      simp only [keyBlock, valueBlock, unpackField, findSplitter_eq fNotNul, found,
        Option.map_none, markBlock]
    | some parts =>
      simp only [keyBlock, valueBlock, unpackField, findSplitter_eq fNotNul, found,
        Option.map_some, List.length_append, List.length_singleton]
  have run : unpackMemory alloc data behind rtSize fsplitter ssplitter = _ :=
    unpackMemory_eq distinct accepts sNotNul behind rtSize
  rw [if_pos granted] at run
  have filled := unpackLoop_filled_malloc fsplitter
    ((pieces ssplitter data.bytes).take maxSplitted).reverse (rValBytes rtSize)
  refine ⟨accepted data fsplitter ssplitter, _, ?_, by rw [accepted_rtSize]; exact run, ?_⟩
  · rw [unpackData_eq distinct, if_pos accepts]
  · have same : fieldBlocks fsplitter ((pieces ssplitter data.bytes).take maxSplitted).reverse =
        (accepted data fsplitter ssplitter).rVal := by
      rw [← splitMsg_bytes data ssplitter data.strlen, ← List.map_reverse, fieldBlocks,
        List.flatMap_map, accepted]
      exact List.flatMap_congr fun piece _ => blocks piece
    rw [← same]
    exact filled

/-- When an accepted message is unpacked within its allocations. -/
structure Unpackable (alloc : Allocator) (data : CString) (rtSize : Nat)
    (fsplitter ssplitter : Byte) : Prop where
  sNotNul : ssplitter ≠ 0
  room : 2 * ((pieces ssplitter data.bytes).take maxSplitted).length ≤
    alloc.given (rValBytes rtSize) / pointerSize
  marked : ∀ piece ∈ (pieces ssplitter data.bytes).take maxSplitted,
    fsplitter = 0 ∨ fsplitter ∈ piece

theorem piece_noNul {piece : Bytes}
    (member : piece ∈ (pieces ssplitter data.bytes).take maxSplitted) : (0 : Byte) ∉ piece := by
  rw [← splitMsg_bytes data ssplitter data.strlen] at member
  obtain ⟨text, _, rfl⟩ := List.mem_map.mp member
  exact text.noNul

/-- The strings of the pieces are terminated in their blocks when every piece has its splitter. -/
theorem fieldBlocks_holdString {split : List Bytes} (clean : ∀ piece ∈ split, (0 : Byte) ∉ piece) :
    (∀ block ∈ fieldBlocks fsplitter split, HoldsString block) ↔
      ∀ piece ∈ split, fsplitter = 0 ∨ fsplitter ∈ piece := by
  simp only [fieldBlocks, List.mem_flatMap, List.mem_cons, List.not_mem_nil, or_false]
  constructor
  · intro all piece member
    exact (keyBlock_holdsString (clean piece member)).mp (all _ ⟨piece, member, Or.inl rfl⟩)
  · rintro all block ⟨piece, member, rfl | rfl⟩
    · exact (keyBlock_holdsString (clean piece member)).mpr (all piece member)
    · exact (valueBlock_holdsString (clean piece member)).mpr (all piece member)

/-- **The strings behind the slots** of the loop over an accepted message's pieces are terminated in
their blocks when every piece has its splitter. -/
theorem unpackLoop_holdStrings (data : CString) (fsplitter ssplitter : Byte) (bytes : Nat) :
    let split := (pieces ssplitter data.bytes).take maxSplitted
    (∀ slot < 2 * split.length, ∃ block,
      (split.reverse.foldl (unpackTurn fsplitter) ⟨PtrArray.malloc bytes, 0⟩).rVal.cells slot =
        some (some block) ∧ HoldsString block) ↔
      ∀ piece ∈ split, fsplitter = 0 ∨ fsplitter ∈ piece := by
  intro split
  have filled := unpackLoop_filled_malloc fsplitter split.reverse bytes
  have slots := filled.forall_slots HoldsString
  rw [fieldBlocks_length, List.length_reverse, fieldBlocks_holdString fun piece member =>
    piece_noNul (List.mem_reverse.mp member)] at slots
  simp only [List.mem_reverse] at slots
  exact slots

/-- What an accepted message's results fit into. -/
theorem unpackable_of_fits (distinct : fsplitter ≠ ssplitter)
    (accepts : data.bytes.count ssplitter = data.bytes.count fsplitter) {behind : Bytes}
    {rtSize : Nat} (fits : FitsAllocations alloc data behind rtSize fsplitter ssplitter) :
    Unpackable alloc data rtSize fsplitter ssplitter := by
  rw [FitsAllocations] at fits
  by_cases nul : ssplitter = 0
  · have overread := splitCopying_nul data behind
    rw [CString.strlen] at overread
    rw [nul] at distinct accepts fits
    simp only [unpackMemory, countSplitters_eq distinct, accepts, ne_eq, not_true_eq_false,
      if_false, overread] at fits
  rw [unpackMemory_eq distinct accepts nul] at fits
  cases granted : alloc.grants (rValBytes rtSize) with
  | true =>
    rw [if_pos granted] at fits
    obtain ⟨stores, blocks⟩ := fits
    have room := (unpackLoop_inBounds fsplitter _ _).mp stores
    rw [List.length_reverse] at room
    refine ⟨nul, ?_, (unpackLoop_holdStrings data fsplitter ssplitter _).mp blocks⟩
    rwa [Allocator.given, if_pos granted]
  | false =>
    rw [if_neg (by simp [granted])] at fits
    by_cases empty : (pieces ssplitter data.bytes).take maxSplitted = []
    · exact ⟨nul, by simp [empty], by simp [empty]⟩
    · rw [if_neg empty] at fits
      cases fits

theorem fits_of_unpackable (distinct : fsplitter ≠ ssplitter)
    (accepts : data.bytes.count ssplitter = data.bytes.count fsplitter) (behind : Bytes)
    {rtSize : Nat} (unpackable : Unpackable alloc data rtSize fsplitter ssplitter) :
    FitsAllocations alloc data behind rtSize fsplitter ssplitter := by
  obtain ⟨notNul, room, marked⟩ := unpackable
  rw [FitsAllocations, unpackMemory_eq distinct accepts notNul]
  cases granted : alloc.grants (rValBytes rtSize) with
  | true =>
    rw [if_pos rfl]
    rw [Allocator.given, if_pos granted] at room
    refine ⟨?_, (unpackLoop_holdStrings data fsplitter ssplitter _).mpr marked⟩
    rw [unpackLoop_inBounds, List.length_reverse]
    exact room
  | false =>
    -- behind NULL there is room for no piece
    rw [Allocator.given, if_neg (by simp [granted]), Nat.zero_div] at room
    have empty : (pieces ssplitter data.bytes).take maxSplitted = [] :=
      List.eq_nil_of_length_eq_zero (by omega)
    rw [if_neg Bool.false_ne_true, if_pos empty]
    trivial

/-- **The `strlen` calls of `lua_unpackData`** stay inside when the results fit. -/
theorem luaUnpackData_of_fits {behind : Bytes} {rtSize : Nat}
    (fits : FitsAllocations alloc data behind rtSize fsplitter ssplitter) :
    luaUnpackData alloc data behind rtSize fsplitter ssplitter ≠ .undefined := by
  have even : ∀ rVal newSize, unpackMemory alloc data behind rtSize fsplitter ssplitter =
      .returned rVal newSize → newSize % 2 = 0 := by
    intro rVal newSize returned
    simp only [unpackMemory] at returned
    split at returned
    · cases returned
    split at returned
    · cases returned
    split at returned
    · rw [← (UnpackResult.returned.inj returned).2, Nat.mul_mod_left]
    · split at returned <;> cases returned
  rw [FitsAllocations] at fits
  rw [luaUnpackData]
  cases run : unpackMemory alloc data behind rtSize fsplitter ssplitter with
  | null => exact LuaUnpacked.noConfusion
  | undefined =>
    rw [run] at fits
    cases fits
  | returned rVal newSize =>
    rw [run] at fits
    obtain ⟨_, blocks⟩ := fits
    have strings : ∀ slot < newSize, ∃ text, slotString rVal slot = some text := by
      intro slot bound
      obtain ⟨block, cell, _, text, found⟩ := blocks slot bound
      exact ⟨text, by simp only [slotString, cell, found]⟩
    have loop : ∀ turns i, i + 2 * turns ≤ newSize →
        ∃ pairs, luaPairs rVal i turns = some pairs := by
      intro turns
      induction turns with
      | zero => exact fun i _ => ⟨[], rfl⟩
      | succ turns ih =>
        intro i bound
        obtain ⟨key, keyFound⟩ := strings i (by omega)
        obtain ⟨value, valueFound⟩ := strings (i + 1) (by omega)
        obtain ⟨pairs, rest⟩ := ih (i + 2) (by omega)
        exact ⟨(key, value) :: pairs, by simp only [luaPairs, keyFound, valueFound, rest,
          Option.map_some]⟩
    have halves := even rVal newSize run
    obtain ⟨pairs, read⟩ := loop ((newSize + 1) / 2) 0 (by omega)
    simp only [read]
    exact LuaUnpacked.noConfusion

end Call

end Bacteria.Net
