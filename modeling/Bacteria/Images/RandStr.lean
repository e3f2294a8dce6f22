/-
**`gdGetRandStr` and its two callers.**

libbacteria/images/images.c; `gdGetRandStr` of libbacteria/lua/libimages.c and `GD::getRandStr` of
src/protocolcxx/images.cpp.

* `isAlnum`, `drawChar` — a number is drawn again until it is a letter or a digit.
* `gdGetRandStr` — the block is filled from its last character down; `gdGetRandStr_iff` — with the accepted
  draws, the first one last.
* `luaGdGetRandStr_iff` — when the binding returns, and what: one character less than asked for.
* `cxxGetRandStr_iff` — the method gives its block one byte, whatever the length.
-/

import Bacteria.Lib.Block
import Bacteria.Lib.Decimal
import Bacteria.Lib.Retry

namespace Bacteria.Images

open Clib Loops

/-- The condition of the inner loop, which goes on without it. -/
def isAlnum (b : Byte) : Bool :=
  !((decide (b < charByte '0') || decide (charByte '9' < b)) &&
    (decide (b < charByte 'a') || decide (charByte 'z' < b)) &&
    (decide (b < charByte 'A') || decide (charByte 'Z' < b)))

section Filling

variable (rand : Nat → Nat)

/-- `rand() % 127`. -/
def drawChar (call : Nat) : Byte := UInt8.ofNat (rand call % 127)

/-- The loop over `len`, from this call of `rand()` on, with so many turns for each inner loop at most: the
block, and the next call. -/
def fillRandom (fuel : Nat) : Nat → Nat → Block → Option (Block × Nat)
  | 0, call, ret => some (ret, call)
  | len + 1, call, ret =>
    match loop (retry isAlnum (drawChar rand)) fuel (0, call) with
    | none => none
    | some (b, next) => fillRandom fuel len next (ret.write len [b])

/-- `gdGetRandStr(ret, len)`. -/
def gdGetRandStr (fuel : Nat) (ret : Block) (len call : Nat) : Option (Block × Nat) :=
  fillRandom rand fuel len call (ret.write len [0])

/-- How a caller ends: with the block, what was found in it, and the next call of `rand()`. -/
inductive RandStr where
  | undefined
  | returned (text : Bytes) (next : Nat) (block : Block)

/-- The binding, for a number without a fraction. A size that is not positive leaves no place for the
terminator at `size - 1`. -/
def luaGdGetRandStr (fuel : Nat) (number : Int) (call : Nat) : Option RandStr :=
  if ¬ (1 ≤ number ∧ number + 1 < 2 ^ 31) then some .undefined
  else
    let size := number.toNat
    (gdGetRandStr rand fuel (Block.malloc (size + 1)) (size - 1) call).map fun (randStr, next) =>
      let randStr := randStr.write size [0]
      match randStr.text? with
      | none => .undefined
      | some text => .returned text next randStr

/-- `GD::getRandStr`: `new char(len + 1)` is one byte. -/
def cxxGetRandStr (fuel len call : Nat) : Option RandStr :=
  let p := (Block.malloc 1).write 0 [UInt8.ofNat (len + 1)]
  (gdGetRandStr rand fuel p len call).map fun (p, next) =>
    match p.text? with
    | none => .undefined
    | some text => .returned text next p

end Filling

/-- The stores of these characters, the first one last in the block. -/
def storeDown : Bytes → Block → Block
  | [], ret => ret
  | b :: chars, ret => storeDown chars (ret.write chars.length [b])

section Filled

variable {rand : Nat → Nat} {len call next : Nat} {ret out : Block}

/-! ### The loop -/

theorem zero_rejected : isAlnum 0 = false := by decide

theorem fillRandom_of_le {fuel more : Nat} (enough : fuel ≤ more) {result : Block × Nat}
    (ends : fillRandom rand fuel len call ret = some result) :
    fillRandom rand more len call ret = some result := by
  induction len generalizing call ret with
  | zero => exact ends
  | succ len ih =>
    rw [fillRandom] at ends ⊢
    cases inner : loop (retry isAlnum (drawChar rand)) fuel (0, call) with
    | none =>
      rw [inner] at ends
      cases ends
    | some drawn =>
      rw [inner] at ends
      rw [loop_of_le enough inner]
      exact ih ends

/-- **The loop ends with the accepted draws**, if there are as many as it asks for. -/
theorem fillRandom_iff :
    (∃ fuel, fillRandom rand fuel len call ret = some (out, next)) ↔
      ∃ chars, chars.length = len ∧ Collects isAlnum (drawChar rand) call chars next ∧
        out = storeDown chars ret := by
  induction len generalizing call ret with
  | zero =>
    constructor
    · rintro ⟨fuel, ends⟩
      obtain ⟨rfl, rfl⟩ := Prod.mk.inj (Option.some.inj ends)
      exact ⟨[], rfl, collects_nil_iff.mpr rfl, rfl⟩
    · rintro ⟨chars, empty, collects, rfl⟩
      obtain rfl := List.length_eq_zero_iff.mp empty
      obtain rfl := collects_nil_iff.mp collects
      exact ⟨0, rfl⟩
  | succ len ih =>
    constructor
    · rintro ⟨fuel, ends⟩
      rw [fillRandom] at ends
      cases inner : loop (retry isAlnum (drawChar rand)) fuel (0, call) with
      | none =>
        rw [inner] at ends
        cases ends
      | some drawn =>
        obtain ⟨k, rejected, here, rfl⟩ := (retry_returns_iff zero_rejected).mp ⟨fuel, inner⟩
        rw [inner] at ends
        obtain ⟨chars, rfl, collects, rfl⟩ := ih.mp ⟨fuel, ends⟩
        exact ⟨drawChar rand (call + k) :: chars, rfl,
          collects_cons_iff.mpr ⟨k, rejected, here, rfl, collects⟩, rfl⟩
    · rintro ⟨chars, length, collects, rfl⟩
      cases chars with
      | nil => cases length
      | cons b chars =>
        obtain ⟨k, rejected, here, rfl, later⟩ := collects_cons_iff.mp collects
        obtain ⟨first, inner⟩ := (retry_returns_iff zero_rejected).mpr ⟨k, rejected, here, rfl⟩
        obtain ⟨second, rest⟩ := ih.mpr ⟨chars, Nat.succ.inj length, later, rfl⟩
        refine ⟨max first second, ?_⟩
        rw [fillRandom, loop_of_le (le_max_left first second) inner]
        obtain rfl := Nat.succ.inj length
        exact fillRandom_of_le (le_max_right first second) rest

/-! ### The block -/

theorem storeDown_size (chars : Bytes) (ret : Block) : (storeDown chars ret).size = ret.size := by
  induction chars generalizing ret with
  | nil => rfl
  | cons b chars ih => rw [storeDown, ih, Block.write_size]

theorem storeDown_inBounds_iff (chars : Bytes) (ret : Block) :
    (storeDown chars ret).InBounds ↔ ret.InBounds ∧ chars.length ≤ ret.size := by
  induction chars generalizing ret with
  | nil => simp [storeDown]
  | cons b chars ih =>
    rw [storeDown, ih, Block.inBounds_write, Block.write_size, List.length_singleton, List.length_cons]
    constructor
    · rintro ⟨⟨inside, room⟩, _⟩
      exact ⟨inside, room⟩
    · rintro ⟨inside, room⟩
      exact ⟨⟨inside, room⟩, by omega⟩

/-- **The block holds the characters backwards**, and what was behind them. -/
theorem storeDown_holds (chars : Bytes) {ret : Block} {rest : Bytes}
    (behind : ret.Holds chars.length rest) : (storeDown chars ret).Holds 0 (chars.reverse ++ rest) := by
  induction chars generalizing ret rest with
  | nil => exact behind
  | cons b chars ih =>
    rw [List.reverse_cons, List.append_assoc]
    have last := Block.holds_write ret chars.length [b]
    refine ih (Block.holds_append last ?_)
    exact Block.holds_write_of_disjoint behind (Or.inr (le_refl _))

theorem extent_write (block : Block) (offset : Nat) (bytes : Bytes) :
    (block.write offset bytes).extent = max block.extent (offset + bytes.length) := by
  simp only [Block.extent, Block.write, List.foldl_append, List.foldl_cons, List.foldl_nil]

theorem extent_le_storeDown (chars : Bytes) (ret : Block) : ret.extent ≤ (storeDown chars ret).extent := by
  induction chars generalizing ret with
  | nil => exact le_refl _
  | cons b chars ih =>
    refine le_trans ?_ (ih (ret.write chars.length [b]))
    rw [extent_write]
    exact le_max_left _ _

/-- The block of a call that ended, for these draws. -/
def filled (ret : Block) (chars : Bytes) : Block := storeDown chars (ret.write chars.length [0])

theorem filled_holds (ret : Block) (chars : Bytes) : (filled ret chars).Holds 0 (chars.reverse ++ [0]) :=
  storeDown_holds chars (Block.holds_write ret chars.length [0])

theorem filled_inBounds_iff (ret : Block) (chars : Bytes) :
    (filled ret chars).InBounds ↔ ret.InBounds ∧ chars.length < ret.size := by
  rw [filled, storeDown_inBounds_iff, Block.inBounds_write, Block.write_size, List.length_singleton]
  constructor
  · rintro ⟨⟨inside, room⟩, _⟩
    exact ⟨inside, room⟩
  · rintro ⟨inside, room⟩
    exact ⟨⟨inside, room⟩, Nat.le_of_lt room⟩

theorem lt_extent_filled (ret : Block) (chars : Bytes) : chars.length < (filled ret chars).extent := by
  refine lt_of_lt_of_le ?_ (extent_le_storeDown chars _)
  rw [extent_write, List.length_singleton]
  exact lt_max_of_lt_right (Nat.lt_succ_self _)

/-- A text without NUL and a NUL behind it, which was written. -/
theorem text?_of_holds {block : Block} {text : Bytes} (clean : (0 : Byte) ∉ text)
    (holds : block.Holds 0 (text ++ [0])) (written : text.length < block.extent) :
    block.text? = some text :=
  Block.cStringFrom_of_holds clean holds written

/-! ### The callers -/

/-- **`gdGetRandStr` ends with the accepted draws**, the first one last, if there are enough. -/
theorem gdGetRandStr_iff :
    (∃ fuel, gdGetRandStr rand fuel ret len call = some (out, next)) ↔
      ∃ chars, chars.length = len ∧ Collects isAlnum (drawChar rand) call chars next ∧
        out = filled ret chars := by
  simp only [gdGetRandStr]
  rw [fillRandom_iff]
  constructor
  · rintro ⟨chars, rfl, collects, rfl⟩
    exact ⟨chars, rfl, collects, rfl⟩
  · rintro ⟨chars, rfl, collects, rfl⟩
    exact ⟨chars, rfl, collects, rfl⟩

theorem clean_of_collects {chars : Bytes} (collects : Collects isAlnum (drawChar rand) call chars next) :
    (0 : Byte) ∉ chars.reverse := by
  intro member
  have accepted := collects.accepts 0 (List.mem_reverse.mp member)
  rw [zero_rejected] at accepted
  cases accepted

/-- A text of so many characters: the accepted draws from this call on, the first one last. -/
structure RandomText (rand : Nat → Nat) (call len : Nat) (text : Bytes) (next : Nat) : Prop where
  length : text.length = len
  collects : Collects isAlnum (drawChar rand) call text.reverse next

/-- **A caller** that reads its block once it is filled. -/
theorem caller_iff {finish : Block × Nat → RandStr} {left : Bytes → Block}
    (reads : ∀ chars next, chars.length = len → (0 : Byte) ∉ chars.reverse →
      finish (filled ret chars, next) = .returned chars.reverse next (left chars))
    {text : Bytes} {block : Block} :
    (∃ fuel, (gdGetRandStr rand fuel ret len call).map finish = some (.returned text next block)) ↔
      RandomText rand call len text next ∧ block = left text.reverse := by
  constructor
  · rintro ⟨fuel, ends⟩
    obtain ⟨⟨out, later⟩, fills, finished⟩ := Option.map_eq_some_iff.mp ends
    obtain ⟨chars, length, collects, rfl⟩ := gdGetRandStr_iff.mp ⟨fuel, fills⟩
    rw [reads chars later length (clean_of_collects collects)] at finished
    obtain ⟨rfl, rfl, rfl⟩ := RandStr.returned.inj finished
    rw [List.reverse_reverse]
    exact ⟨⟨by rw [List.length_reverse, length], by rwa [List.reverse_reverse]⟩, rfl⟩
  · rintro ⟨⟨length, collects⟩, rfl⟩
    have count : text.reverse.length = len := by rw [List.length_reverse, length]
    obtain ⟨fuel, fills⟩ := gdGetRandStr_iff.mpr ⟨text.reverse, count, collects, rfl⟩
    refine ⟨fuel, ?_⟩
    rw [fills, Option.map_some, reads _ next count (clean_of_collects collects), List.reverse_reverse]

/-- **The binding** returns one character less than its argument, and stays inside its block. -/
theorem luaGdGetRandStr_iff (fits : len + 2 < 2 ^ 31) {text : Bytes} {block : Block} :
    (∃ fuel, luaGdGetRandStr rand fuel (len + 1) call = some (.returned text next block)) ↔
      RandomText rand call len text next ∧
        block = (filled (Block.malloc (len + 2)) text.reverse).write (len + 1) [0] := by
  have size : ((len : Int) + 1).toNat = len + 1 := by omega
  have range : ¬ ¬ ((1 : Int) ≤ (len : Int) + 1 ∧ (len : Int) + 1 + 1 < 2 ^ 31) := by
    rw [not_not]
    omega
  simp only [luaGdGetRandStr, if_neg range, size, Nat.add_sub_cancel]
  refine @caller_iff rand len call next (Block.malloc (len + 2)) _
    (fun chars => (filled (Block.malloc (len + 2)) chars).write (len + 1) [0])
    (fun chars next length clean => ?_) text block
  have holds : ((filled (Block.malloc (len + 2)) chars).write (len + 1) [0]).Holds 0
      (chars.reverse ++ [0]) :=
    Block.holds_write_of_disjoint (filled_holds _ chars) (Or.inl (by simp [length]))
  have written : chars.reverse.length <
      ((filled (Block.malloc (len + 2)) chars).write (len + 1) [0]).extent := by
    rw [extent_write, List.length_reverse]
    exact lt_max_of_lt_left (lt_extent_filled _ chars)
  simp only [text?_of_holds clean holds written]

/-- **The method** returns as many as asked for, out of a block of one byte. -/
theorem cxxGetRandStr_iff {text : Bytes} {block : Block} :
    (∃ fuel, cxxGetRandStr rand fuel len call = some (.returned text next block)) ↔
      RandomText rand call len text next ∧
        block = filled ((Block.malloc 1).write 0 [UInt8.ofNat (len + 1)]) text.reverse := by
  refine caller_iff fun chars next length clean => ?_
  have written : chars.reverse.length <
      (filled ((Block.malloc 1).write 0 [UInt8.ofNat (len + 1)]) chars).extent := by
    rw [List.length_reverse]
    exact lt_extent_filled _ chars
  simp only [text?_of_holds clean (filled_holds _ chars) written]

/-- From every call on there are as many accepted draws as one asks for, if every remainder comes up again
and again. -/
theorem exists_collects (takes : TakesEveryResidue rand 127) (len call : Nat) :
    ∃ chars next, chars.length = len ∧ Collects isAlnum (drawChar rand) call chars next := by
  induction len generalizing call with
  | zero => exact ⟨[], call, rfl, collects_nil_iff.mpr rfl⟩
  | succ len ih =>
    have some : ∃ k, isAlnum (drawChar rand (call + k)) = true := by
      obtain ⟨k, residue⟩ := takes 97 (by decide) call
      exact ⟨k, by rw [drawChar, residue]; decide⟩
    obtain ⟨chars, next, length, later⟩ := ih (call + Nat.find some + 1)
    refine ⟨drawChar rand (call + Nat.find some) :: chars, next, by rw [List.length_cons, length], ?_⟩
    exact collects_cons_iff.mpr ⟨Nat.find some, fun j below => Bool.eq_false_iff.mpr
      (Nat.find_min some below), Nat.find_spec some, rfl, later⟩

end Filled

/-! ### Two characters -/

/-- The draws 40 and 60 are rejected. -/
def sampleRand (call : Nat) : Nat := 40 + 20 * call

theorem sampleRand_drawn : RandomText sampleRand 0 2 (ascii "dP") 4 where
  length := rfl
  collects := ⟨by decide, by decide, Or.inr (by decide)⟩

end Bacteria.Images
