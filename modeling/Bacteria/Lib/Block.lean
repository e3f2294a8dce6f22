/-
**Heap blocks.**

A `Block` is one allocation: its size, its cells (`none` for a byte that was never set) and the log
of the writes made through it. A write takes effect wherever it falls, as it does on a machine that
does not check it; the log says whether it fell inside the block (`Block.InBounds`).

* `malloc`, `realloc`, `write` (`memcpy`, a store, `bzero`), `strcpy`.
* `Holds block offset bytes` — the cells from `offset` on are these bytes. `holds_realloc`,
  `Holds.write_append` and `Holds.strcpy_append` are the rules of a loop that fills a block from its
  start; `holds_write_of_disjoint` is the frame rule.
* `cString?` — what `strlen` and its kin find at the start of the block: the bytes before the first
  NUL, `none` when an unset byte or the end of the block comes first. `cString?_of_holds` computes it.
-/

import Bacteria.Lib.CString
import Mathlib.Data.List.Induction

namespace Clib

/-- One write: where it starts, how many bytes, and the size of the block at that time. -/
structure Write where
  offset : Nat
  count : Nat
  size : Nat
deriving DecidableEq

/-- One allocation. -/
structure Block where
  size : Nat
  cells : Nat → Option Byte
  writes : List Write

namespace Block

/-- `malloc`: nothing is set. -/
def malloc (size : Nat) : Block := ⟨size, fun _ => none, []⟩

/-- `realloc`: the bytes both sizes have are kept. -/
def realloc (block : Block) (size : Nat) : Block :=
  { block with
    size
    cells := fun index => if index < size then block.cells index else none }

/-- `memcpy(block + offset, bytes, n)`, `block[offset] = b` for one byte. -/
def write (block : Block) (offset : Nat) (bytes : Bytes) : Block :=
  { block with
    cells := fun index =>
      if offset ≤ index ∧ index < offset + bytes.length then bytes[index - offset]?
      else block.cells index
    writes := block.writes ++ [⟨offset, bytes.length, block.size⟩] }

/-- `bzero(block, count)`. -/
def bzero (block : Block) (count : Nat) : Block := block.write 0 (List.replicate count 0)

/-- `strcpy(block + offset, text)`: the bytes of the text and its terminator. -/
def strcpy (block : Block) (offset : Nat) (text : CString) : Block :=
  block.write offset (text.bytes ++ [0])

/-- Every write fell inside the block as it was then. -/
def InBounds (block : Block) : Prop := ∀ w ∈ block.writes, w.offset + w.count ≤ w.size

instance (block : Block) : Decidable block.InBounds :=
  inferInstanceAs (Decidable (∀ w ∈ block.writes, w.offset + w.count ≤ w.size))

/-- The first `count` bytes, as far as they are set. -/
def take (block : Block) (count : Nat) : Bytes := (List.range count).filterMap block.cells

/-- A C string starting at `index`, looked for in `fuel` cells. -/
def cStringFrom (block : Block) (index : Nat) : Nat → Option Bytes
  | 0 => none
  | fuel + 1 =>
    match block.cells index with
    | none => none
    | some b => if b = 0 then some [] else (block.cStringFrom (index + 1) fuel).map (b :: ·)

/-- The C string at the start of the block, if it ends inside it. -/
def cString? (block : Block) : Option Bytes := block.cStringFrom 0 block.size

/-- How far the block was allocated or written. -/
def extent (block : Block) : Nat :=
  block.writes.foldl (fun reach w => max reach (w.offset + w.count)) block.size

/-- The C string at the start of the block as a machine reads it that does not stop at the end of the
block: as far as something was written. -/
def text? (block : Block) : Option Bytes := block.cStringFrom 0 block.extent

/-- No cell from `offset` on is set. -/
def BlankFrom (block : Block) (offset : Nat) : Prop :=
  ∀ index, offset ≤ index → block.cells index = none

/-- The cells from `offset` on are `bytes`. -/
def Holds (block : Block) (offset : Nat) (bytes : Bytes) : Prop :=
  ∀ index < bytes.length, block.cells (offset + index) = bytes[index]?

@[simp] theorem malloc_size (size : Nat) : (malloc size).size = size := rfl

@[simp] theorem realloc_size (block : Block) (size : Nat) : (block.realloc size).size = size := rfl

@[simp] theorem write_size (block : Block) (offset : Nat) (bytes : Bytes) :
    (block.write offset bytes).size = block.size := rfl

@[simp] theorem strcpy_size (block : Block) (offset : Nat) (text : CString) :
    (block.strcpy offset text).size = block.size := rfl

theorem write_cells_of_outside (block : Block) {offset index : Nat} {bytes : Bytes}
    (outside : index < offset ∨ offset + bytes.length ≤ index) :
    (block.write offset bytes).cells index = block.cells index :=
  if_neg (by omega)

theorem inBounds_malloc (size : Nat) : (malloc size).InBounds := by
  intro w member
  cases member

/-- **A write keeps a block in bounds exactly if it fits.** -/
theorem inBounds_write {block : Block} {offset : Nat} {bytes : Bytes} :
    (block.write offset bytes).InBounds ↔ block.InBounds ∧ offset + bytes.length ≤ block.size := by
  simp only [InBounds, write, List.mem_append, List.mem_singleton, or_imp, forall_and, forall_eq]

theorem inBounds_realloc {block : Block} {size : Nat} :
    (block.realloc size).InBounds ↔ block.InBounds := Iff.rfl

theorem inBounds_strcpy {block : Block} {offset : Nat} {text : CString} :
    (block.strcpy offset text).InBounds ↔
      block.InBounds ∧ offset + (text.strlen + 1) ≤ block.size := by
  rw [strcpy, inBounds_write, List.length_append, List.length_singleton, CString.strlen]

theorem blankFrom_realloc (block : Block) (size : Nat) : (block.realloc size).BlankFrom size :=
  fun _ behind => if_neg (not_lt.mpr behind)

theorem BlankFrom.write {block : Block} {reach : Nat} (blank : block.BlankFrom reach)
    {offset : Nat} {bytes : Bytes} (before : offset + bytes.length ≤ reach) :
    (block.write offset bytes).BlankFrom reach := by
  intro index behind
  have outside : ¬ (offset ≤ index ∧ index < offset + bytes.length) := by omega
  simp only [Block.write, if_neg outside]
  exact blank index behind

theorem holds_nil (block : Block) (offset : Nat) : block.Holds offset [] := by
  intro index bound
  simp at bound

theorem holds_write (block : Block) (offset : Nat) (bytes : Bytes) :
    (block.write offset bytes).Holds offset bytes := by
  intro index bound
  have inside : offset ≤ offset + index ∧ offset + index < offset + bytes.length := by omega
  simp only [write, if_pos inside, Nat.add_sub_cancel_left]

/-- **A write elsewhere changes nothing here.** -/
theorem holds_write_of_disjoint {block : Block} {offset : Nat} {bytes : Bytes}
    (holds : block.Holds offset bytes) {other : Nat} {written : Bytes}
    (disjoint : offset + bytes.length ≤ other ∨ other + written.length ≤ offset) :
    (block.write other written).Holds offset bytes := by
  intro index bound
  have outside : ¬ (other ≤ offset + index ∧ offset + index < other + written.length) := by omega
  simp only [write, if_neg outside]
  exact holds index bound

theorem holds_realloc {block : Block} {offset : Nat} {bytes : Bytes}
    (holds : block.Holds offset bytes) {size : Nat} (fits : offset + bytes.length ≤ size) :
    (block.realloc size).Holds offset bytes := by
  intro index bound
  have inside : offset + index < size := by omega
  simp only [realloc, if_pos inside]
  exact holds index bound

theorem holds_append {block : Block} {offset : Nat} {first second : Bytes}
    (here : block.Holds offset first) (there : block.Holds (offset + first.length) second) :
    block.Holds offset (first ++ second) := by
  intro index bound
  rw [List.length_append] at bound
  by_cases inFirst : index < first.length
  · rw [List.getElem?_append_left inFirst]
    exact here index inFirst
  · rw [List.getElem?_append_right (by omega)]
    have shifted := there (index - first.length) (by omega)
    rwa [show offset + first.length + (index - first.length) = offset + index by omega] at shifted

theorem Holds.left {block : Block} {offset : Nat} {first second : Bytes}
    (holds : block.Holds offset (first ++ second)) : block.Holds offset first := by
  intro index bound
  rw [holds index (by rw [List.length_append]; omega), List.getElem?_append_left bound]

theorem Holds.right {block : Block} {offset : Nat} {first second : Bytes}
    (holds : block.Holds offset (first ++ second)) :
    block.Holds (offset + first.length) second := by
  intro index bound
  have shifted := holds (first.length + index) (by rw [List.length_append]; omega)
  rwa [List.getElem?_append_right (by omega), Nat.add_sub_cancel_left, ← Nat.add_assoc] at shifted

/-- **Writing right behind what a block holds.** -/
theorem Holds.write_append {block : Block} {text : Bytes} (holds : block.Holds 0 text)
    {offset : Nat} (behind : offset = text.length) (bytes : Bytes) :
    (block.write offset bytes).Holds 0 (text ++ bytes) := by
  refine holds_append (holds_write_of_disjoint holds (Or.inl (by omega))) ?_
  rw [Nat.zero_add, ← behind]
  exact holds_write block offset bytes

/-- `strcpy` right behind what a block holds; the terminator is there to be overwritten. -/
theorem Holds.strcpy_append {block : Block} {text : Bytes} (holds : block.Holds 0 text)
    {offset : Nat} (behind : offset = text.length) (copied : CString) :
    (block.strcpy offset copied).Holds 0 (text ++ copied.bytes) := by
  have written := holds.write_append behind (copied.bytes ++ [0])
  rw [← List.append_assoc] at written
  exact written.left

theorem Holds.tail {block : Block} {offset : Nat} {b : Byte} {bytes : Bytes}
    (holds : block.Holds offset (b :: bytes)) : block.Holds (offset + 1) bytes := by
  intro index bound
  have shifted := holds (index + 1) (by rw [List.length_cons]; omega)
  rwa [List.getElem?_cons_succ, ← Nat.add_assoc, Nat.add_right_comm] at shifted

theorem Holds.head {block : Block} {offset : Nat} {b : Byte} {bytes : Bytes}
    (holds : block.Holds offset (b :: bytes)) : block.cells offset = some b := by
  have first := holds 0 (by rw [List.length_cons]; omega)
  rwa [Nat.add_zero, List.getElem?_cons_zero] at first

/-- The bytes a block holds from its start on are what is read there. -/
theorem take_of_holds {block : Block} {bytes : Bytes} (holds : block.Holds 0 bytes) :
    block.take bytes.length = bytes := by
  have same : (List.range bytes.length).filterMap block.cells =
      (List.range bytes.length).filterMap fun index => bytes[index]? := by
    refine List.filterMap_congr fun index member => ?_
    have value := holds index (List.mem_range.mp member)
    rwa [Nat.zero_add] at value
  rw [take, same]
  clear same holds
  induction bytes using List.reverseRecOn with
  | nil => rfl
  | append_singleton bytes b ih =>
    have before : (List.range bytes.length).filterMap (fun index => (bytes ++ [b])[index]?) =
        (List.range bytes.length).filterMap fun index => bytes[index]? :=
      List.filterMap_congr fun index member =>
        List.getElem?_append_left (List.mem_range.mp member)
    rw [List.length_append, List.length_singleton, List.range_succ, List.filterMap_append, before,
      ih]
    simp

/-- Cells that are set one by one hold a text. -/
theorem exists_holds {block : Block} {p : Byte → Prop} {count : Nat}
    (each : ∀ index < count, ∃ b, block.cells index = some b ∧ p b) :
    ∃ bytes, bytes.length = count ∧ block.Holds 0 bytes ∧ ∀ b ∈ bytes, p b := by
  induction count with
  | zero => exact ⟨[], rfl, holds_nil block 0, fun b member => by cases member⟩
  | succ count ih =>
    obtain ⟨bytes, length, holds, all⟩ := ih fun index below => each index (Nat.lt_succ_of_lt below)
    obtain ⟨b, cell, last⟩ := each count (Nat.lt_succ_self count)
    have one : block.Holds (0 + bytes.length) [b] := by
      intro index bound
      obtain rfl : index = 0 := by simpa using bound
      rw [Nat.zero_add, Nat.add_zero, length, cell]
      rfl
    refine ⟨bytes ++ [b], by simp [length], holds_append holds one, fun other member => ?_⟩
    rcases List.mem_append.mp member with before | here
    · exact all other before
    · rwa [List.mem_singleton.mp here]

/-- The scan for a NUL finds the end of a terminated text. -/
theorem cStringFrom_of_holds {block : Block} {text : Bytes} (clean : (0 : Byte) ∉ text)
    {offset fuel : Nat} (holds : block.Holds offset (text ++ [0])) (enough : text.length < fuel) :
    block.cStringFrom offset fuel = some text := by
  induction text generalizing offset fuel with
  | nil =>
    obtain ⟨fuel, rfl⟩ := Nat.exists_eq_succ_of_ne_zero (Nat.ne_of_gt enough)
    rw [List.nil_append] at holds
    simp only [cStringFrom, holds.head, if_true]
  | cons b text ih =>
    obtain ⟨fuel, rfl⟩ := Nat.exists_eq_succ_of_ne_zero (Nat.ne_of_gt (Nat.zero_lt_of_lt enough))
    rw [List.length_cons, Nat.succ_lt_succ_iff] at enough
    have notNul : b ≠ 0 := fun zero => clean (by simp [zero])
    have tailClean : (0 : Byte) ∉ text := fun member => clean (List.mem_cons_of_mem _ member)
    rw [List.cons_append] at holds
    simp only [cStringFrom, holds.head, if_neg notNul, ih tailClean holds.tail enough,
      Option.map_some]

/-- **A terminated text in a block is its C string.** -/
theorem cString?_of_holds {block : Block} {text : Bytes} (clean : (0 : Byte) ∉ text)
    (holds : block.Holds 0 (text ++ [0])) (fits : text.length < block.size) :
    block.cString? = some text := cStringFrom_of_holds clean holds fits

/-- The scan of a text without NUL does not end in it. -/
theorem cStringFrom_of_full {block : Block} {text : Bytes} (clean : (0 : Byte) ∉ text)
    {offset : Nat} (holds : block.Holds offset text) :
    block.cStringFrom offset text.length = none := by
  induction text generalizing offset with
  | nil => rfl
  | cons b text ih =>
    have notNul : b ≠ 0 := fun zero => clean (by simp [zero])
    have tailClean : (0 : Byte) ∉ text := fun member => clean (List.mem_cons_of_mem _ member)
    rw [List.length_cons]
    simp only [cStringFrom, holds.head, if_neg notNul, ih tailClean holds.tail, Option.map_none]

/-- **A block that a text without NUL fills up** holds no C string. -/
theorem cString?_of_full {block : Block} {text : Bytes} (clean : (0 : Byte) ∉ text)
    (holds : block.Holds 0 text) (full : block.size = text.length) : block.cString? = none := by
  rw [cString?, full]
  exact cStringFrom_of_full clean holds

theorem le_extent_write (block : Block) (offset : Nat) (bytes : Bytes) :
    offset + bytes.length ≤ (block.write offset bytes).extent := by
  simp only [extent, write, List.foldl_append, List.foldl_cons, List.foldl_nil]
  exact Nat.le_max_right _ _

/-- **Data and a terminator behind it read as the C string of the data.** -/
theorem text?_of_terminated {block : Block} {data : Bytes} (holds : block.Holds 0 data) :
    (block.write data.length [0]).text? = some (cstr data).bytes := by
  have reach := le_extent_write block data.length [0]
  rw [List.length_singleton] at reach
  have written : (block.write data.length [0]).Holds 0 (data ++ [0]) := holds.write_append rfl [0]
  obtain ⟨rest, shape⟩ := cstr_terminated data
  rw [shape, List.append_cons] at written
  have shorter := cstr_length_le data
  exact cStringFrom_of_holds (cstr data).noNul written.left (by omega)

/-- A zeroed block holds zeroes. -/
theorem holds_bzero (block : Block) {offset zeroes count : Nat} (inside : offset + zeroes ≤ count) :
    (block.bzero count).Holds offset (List.replicate zeroes 0) := by
  intro index bound
  rw [List.length_replicate] at bound
  have reached : 0 ≤ offset + index ∧
      offset + index < 0 + (List.replicate count (0 : Byte)).length := by
    rw [List.length_replicate]
    omega
  simp only [bzero, write, if_pos reached]
  rw [List.getElem?_replicate, List.getElem?_replicate, if_pos bound, if_pos (by omega)]

/-- A text copied over the start of a zeroed block that has room for its terminator. -/
theorem cString?_of_zeroed {text : Bytes} (clean : (0 : Byte) ∉ text) {size : Nat}
    (room : text.length < size) :
    (((malloc size).bzero size).write 0 text).cString? = some text := by
  have zeroed : ((malloc size).bzero size).Holds (0 + text.length) (List.replicate 1 0) :=
    holds_bzero _ (by omega)
  refine cString?_of_holds clean (holds_append (holds_write _ 0 text) ?_) room
  exact holds_write_of_disjoint zeroed (Or.inr (by omega))

end Block

end Clib
