/-
**`generate_rand_bytes` and the two key generators built on it.**

libbacteria/encdec/sync/AES.c; `lua_genRandBytes` of libbacteria/lua/libencdec.c and
`encdec::getRandBytes` of src/protocolcxx/encdec.cpp.

* `fillDown` — the loop, from the last byte down; `fillDown_cells`, `fillDown_inBounds` — what it sets.
* `luaGenRandBytes` — asks for one byte more than it returns, since the loop leaves the last one out.
* `getRandBytes` — asks for as many bytes as it returns, and closes them one byte too far.
* `Generates` — what a generator is for; `generates_iff` — which one is.
-/

import Bacteria.EncDec.Aes

namespace Bacteria.EncDec

open Clib

/-- What `rand()` returns, call by call. -/
abbrev Rand := Nat → Nat

/-- `rand() % 255+1`. -/
def randByte (value : Nat) : Byte := UInt8.ofNat (value % 255 + 1)

/-- The loop over `i`, after so many calls of `rand()`. -/
def fillDown (rand : Rand) : Nat → Nat → Block → Block
  | 0, _, key => key
  | i + 1, call, key => fillDown rand i (call + 1) (key.write i [randByte (rand call)])

/-- `generate_rand_bytes(len, key)`: `len - 1` is a `size_t`, `i` an `unsigned int`. -/
def generateRandBytes (rand : Rand) (len : Nat) (key : Block) : Block :=
  fillDown rand ((len + 2 ^ 64 - 1) % 2 ^ 64 % 2 ^ 32) 0 key

/-- How a generator ends: with a Lua error, in an `int` that does not hold its value, or with its buffer
as `generate_rand_bytes` left it, the buffer at the end, and what `strlen` finds in the result. -/
inductive Generated where
  | raised
  | undefined
  | returned (filled buffer : Block) (text : Option CString)

/-- `lua_genRandBytes`, for a number without a fraction. What it returns is a Lua string, which has a
terminator of its own. -/
def luaGenRandBytes (rand : Rand) (number : Int) : Generated :=
  if ¬ (-2 ^ 31 ≤ number ∧ number + 1 < 2 ^ 31) then .undefined
  else if number ≤ 0 then .raised
  else
    let len := number.toNat
    let filled := generateRandBytes rand (len + 1) (Block.malloc (len + 1))
    let bytes := filled.write len [48]
    .returned filled bytes (some (cstr (bytes.take len)))

/-- `encdec::getRandBytes`. -/
def getRandBytes (rand : Rand) (len : Nat) : Generated :=
  let filled := generateRandBytes rand len (Block.malloc len)
  let pBytes := filled.write len [48]
  .returned filled pBytes (pBytes.cString?.map cstr)

/-- The two generators. -/
inductive Generator where
  | luaGenRandBytes
  | getRandBytes

def Generator.run (rand : Rand) (len : Nat) : Generator → Generated
  | luaGenRandBytes => EncDec.luaGenRandBytes rand len
  | getRandBytes => EncDec.getRandBytes rand len

/-- **What a generator is for**: `len` bytes that `generate_rand_bytes` set to values from 1 to 255,
written inside the buffer; 32 of them pass as a key, 16 of them as an initialisation vector. -/
structure FullyRandom (len : Nat) (filled buffer : Block) (text : Option CString) : Prop where
  set : ∀ i < len, ∃ b : Byte, filled.cells i = some b ∧ buffer.cells i = some b ∧ 1 ≤ b.toNat ∧
    b.toNat ≤ 255
  inside : buffer.InBounds
  asKey : len = 32 → ∀ iv : CString, iv.strlen = 16 → ∃ key, text = some key ∧
    badSizes key iv = false
  asIv : len = 16 → ∀ key : CString, key.strlen = 32 → ∃ iv, text = some iv ∧
    badSizes key iv = false

/-- A generator does that, for one length and one sequence of `rand()`. -/
def Generates (generator : Generator) (rand : Rand) (len : Nat) : Prop :=
  ∃ filled buffer text, generator.run rand len = .returned filled buffer text ∧
    FullyRandom len filled buffer text

section Filling

variable {rand : Rand}

theorem randByte_toNat (value : Nat) : (randByte value).toNat = value % 255 + 1 := by
  rw [randByte, UInt8.toNat_ofNat']
  omega

/-- **What the loop sets**: the bytes below its counter, and no other. -/
theorem fillDown_cells (count call : Nat) (key : Block) (i : Nat) :
    (i < count → ∃ value, (fillDown rand count call key).cells i = some (randByte value)) ∧
      (count ≤ i → (fillDown rand count call key).cells i = key.cells i) := by
  induction count generalizing call key with
  | zero => exact ⟨fun below => absurd below (Nat.not_lt_zero i), fun _ => rfl⟩
  | succ count ih =>
    obtain ⟨set, kept⟩ := ih (call + 1) (key.write count [randByte (rand call)])
    rw [fillDown]
    constructor
    · intro below
      by_cases before : i < count
      · exact set before
      · obtain rfl : i = count := by omega
        have written := Block.holds_write key i [randByte (rand call)]
        exact ⟨rand call, by rw [kept (le_refl i), written.head]⟩
    · intro behind
      rw [kept (by omega), Block.write_cells_of_outside key (Or.inr ?_)]
      rwa [List.length_singleton]

/-- The loop stays inside a block that has its counter's bytes. -/
theorem fillDown_inBounds {count : Nat} (call : Nat) {key : Block} (inside : key.InBounds)
    (room : count ≤ key.size) : (fillDown rand count call key).InBounds := by
  induction count generalizing call key with
  | zero => exact inside
  | succ count ih =>
    refine ih (call + 1) (Block.inBounds_write.mpr ⟨inside, ?_⟩) (Nat.le_of_succ_le room)
    rwa [List.length_singleton]

theorem fillDown_size (count call : Nat) (key : Block) :
    (fillDown rand count call key).size = key.size := by
  induction count generalizing call key with
  | zero => rfl
  | succ count ih => rw [fillDown, ih, Block.write_size]

end Filling

section Generators

variable {rand : Rand} {len : Nat}

/-- The counter of the loop for a length that is not zero. -/
theorem counter_le (positive : 1 ≤ len) : (len + 2 ^ 64 - 1) % 2 ^ 64 % 2 ^ 32 ≤ len - 1 := by
  omega

theorem counter_of_small (positive : 1 ≤ len) (small : len ≤ 2 ^ 32) :
    (len + 2 ^ 64 - 1) % 2 ^ 64 % 2 ^ 32 = len - 1 := by
  omega

/-- A text without NUL in a buffer, read as a Lua string, has all of its bytes. -/
theorem strlen_take {buffer : Block}
    (set : ∀ i < len, ∃ b : Byte, buffer.cells i = some b ∧ b ≠ 0) :
    (cstr (buffer.take len)).strlen = len := by
  obtain ⟨bytes, rfl, holds, all⟩ := Block.exists_holds set
  have clean : (0 : Byte) ∉ bytes := fun member => all 0 member rfl
  rw [Block.take_of_holds holds, CString.strlen, (cstr_eq_iff bytes).mpr clean]

/-- **`lua_genRandBytes` is a generator**, as far as its length and one more are an `int`. -/
theorem luaGenRandBytes_generates (positive : 1 ≤ len) (small : len + 1 < 2 ^ 31) :
    Generates .luaGenRandBytes rand len := by
  have counter := @counter_of_small (len + 1) (by omega) (by omega)
  have run : luaGenRandBytes rand len = .returned (fillDown rand len 0 (Block.malloc (len + 1)))
      ((fillDown rand len 0 (Block.malloc (len + 1))).write len [48])
      (some (cstr (((fillDown rand len 0 (Block.malloc (len + 1))).write len [48]).take len))) := by
    have filled : generateRandBytes rand (len + 1) (Block.malloc (len + 1)) =
        fillDown rand len 0 (Block.malloc (len + 1)) := by
      rw [generateRandBytes, counter, Nat.add_sub_cancel]
    rw [luaGenRandBytes, if_neg (by omega), if_neg (by omega)]
    simp only [Int.toNat_natCast, filled]
  have set : ∀ i < len, ∃ value,
      (fillDown rand len 0 (Block.malloc (len + 1))).cells i = some (randByte value) ∧
        ((fillDown rand len 0 (Block.malloc (len + 1))).write len [48]).cells i =
          some (randByte value) := by
    intro i below
    obtain ⟨value, cell⟩ := (fillDown_cells len 0 (Block.malloc (len + 1)) i).1 below
    exact ⟨value, cell, by rw [Block.write_cells_of_outside _ (Or.inl below), cell]⟩
  have strlen : (cstr (((fillDown rand len 0 (Block.malloc (len + 1))).write len [48]).take
      len)).strlen = len := by
    refine strlen_take fun i below => ?_
    obtain ⟨value, _, cell⟩ := set i below
    refine ⟨_, cell, fun zero => ?_⟩
    have positive := randByte_toNat value
    rw [zero] at positive
    cases positive
  refine ⟨_, _, _, run, fun i below => ?_, ?_, fun size iv ivSize => ⟨_, rfl, ?_⟩,
    fun size key keySize => ⟨_, rfl, ?_⟩⟩
  · obtain ⟨value, filled, cell⟩ := set i below
    have range := randByte_toNat value
    exact ⟨_, filled, cell, by omega, by omega⟩
  · rw [Block.inBounds_write, fillDown_size, Block.malloc_size, List.length_singleton]
    exact ⟨fillDown_inBounds 0 (Block.inBounds_malloc _) (Nat.le_succ len), le_refl _⟩
  · exact badSizes_eq_false.mpr ⟨by rw [strlen, size], ivSize⟩
  · exact badSizes_eq_false.mpr ⟨keySize, by rw [strlen, size]⟩

/-- A length that does not fit is not generated. -/
theorem luaGenRandBytes_undefined (large : ¬ len + 1 < 2 ^ 31) :
    luaGenRandBytes rand len = .undefined := by
  rw [luaGenRandBytes, if_pos (by omega)]

/-- **`getRandBytes` never sets its last byte**, and closes its buffer behind the end. -/
theorem getRandBytes_misses (positive : 1 ≤ len) :
    ∃ filled buffer text, getRandBytes rand len = .returned filled buffer text ∧
      filled.cells (len - 1) = none ∧ buffer.cells (len - 1) = none ∧ ¬ buffer.InBounds := by
  have counter := counter_le positive
  have unset : (generateRandBytes rand len (Block.malloc len)).cells (len - 1) = none := by
    rw [generateRandBytes, (fillDown_cells _ 0 _ _).2 counter]
    rfl
  have before : len - 1 < len := by omega
  refine ⟨_, (generateRandBytes rand len (Block.malloc len)).write len [48], _, rfl, unset, ?_, ?_⟩
  · rw [Block.write_cells_of_outside _ (Or.inl before), unset]
  · rw [Block.inBounds_write, generateRandBytes, fillDown_size, Block.malloc_size,
      List.length_singleton]
    rintro ⟨_, fits⟩
    omega

/-- `getRandBytes` is no generator, at any length. -/
theorem getRandBytes_not_generates (positive : 1 ≤ len) : ¬ Generates .getRandBytes rand len := by
  rintro ⟨filled, buffer, text, run, random⟩
  obtain ⟨_, _, _, returned, _, _, outside⟩ := @getRandBytes_misses rand len positive
  obtain ⟨_, rfl, _⟩ := Generated.returned.inj (returned.symm.trans run)
  exact outside random.inside

/-- **Which generator generates keys**: the one for Lua. -/
theorem generates_iff (generator : Generator) (rand : Rand) (len : Nat) (positive : 1 ≤ len) :
    Generates generator rand len ↔ generator = .luaGenRandBytes ∧ len + 1 < 2 ^ 31 := by
  cases generator with
  | luaGenRandBytes =>
    constructor
    · rintro ⟨filled, buffer, text, run, _⟩
      refine ⟨rfl, ?_⟩
      by_contra large
      have undefined := (luaGenRandBytes_undefined large).symm.trans run
      cases undefined
    · exact fun small => luaGenRandBytes_generates positive small.2
  | getRandBytes =>
    refine iff_of_false (getRandBytes_not_generates positive) ?_
    rintro ⟨same, _⟩
    cases same

/-- A key of 32 bytes. -/
theorem generates_iff_key : Generates .luaGenRandBytes id 32 :=
  (generates_iff .luaGenRandBytes id 32 (by decide)).mpr ⟨rfl, by decide⟩

/-- **Two bytes from `getRandBytes`**: the second is not set, and the third is written. -/
theorem twoBytes_overrun :
    ∃ filled buffer text, getRandBytes id 2 = .returned filled buffer text ∧
      buffer.cells 0 = some 1 ∧ buffer.cells 1 = none ∧ buffer.cells 2 = some 48 ∧
        ¬ buffer.InBounds ∧ ¬ Generates .getRandBytes id 2 :=
  ⟨_, _, _, rfl, rfl, rfl, rfl, by decide, getRandBytes_not_generates (by decide)⟩

end Generators

end Bacteria.EncDec
