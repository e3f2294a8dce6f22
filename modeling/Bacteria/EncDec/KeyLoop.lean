/-
**The three loops that bring a key to 32 bytes.**

`baes:new` of src/luasubmodules/bencdec.lua has one, the `pisk` and `pizd` handlers of
src/luasubmodules/init.lua have one each.

* `normalKey key` — the first 32 bytes of the key, filled up with `0` on the right.
* `padKey_ends` — the loop of the handlers ends with it, from every key.
* `keyLoop_never` — the loop of `baes:new` does not end for a key of less than 31 bytes: every turn
  starts from the given key again.
* `Normalises` — what the three loops are for; `normalises_iff` — when they do it.
* `handlerObject_ends` — the handlers call `baes:new` with a key it ends for.
-/

import Bacteria.EncDec.Baes

namespace Bacteria.EncDec

open Clib

/-- The character `0`. -/
def zeroChar : Byte := 48

/-- The `while` loop of a handler on its local `key`, for so many turns at most. -/
def padKey : Nat → Bytes → Option Key
  | 0, key => if size : key.length = 32 then some ⟨key, size⟩ else none
  | fuel + 1, key =>
    if size : key.length = 32 then some ⟨key, size⟩
    else if key.length > 32 then padKey fuel (key.take 32)
    else padKey fuel (key ++ [zeroChar])

/-- The key `opcodes["pisk"]` makes of the message body. -/
def piskKey (fuel : Nat) (buf : Bytes) : Option Key := padKey fuel buf

/-- The key `opcodes["pizd"]` makes of the message body. -/
def pizdKey (fuel : Nat) (buf : Bytes) : Option Key := padKey fuel buf

/-- The first 32 bytes of a key, padded on the right. -/
def normalKey (key : Bytes) : Key where
  val := (key ++ List.replicate 32 zeroChar).take 32
  property := by
    rw [List.length_take, List.length_append, List.length_replicate]
    omega

/-- The initialisation vector of both handlers. -/
def handlerIv : Bytes := ascii "1234567890123451"

section Keys

variable {key iv : Bytes}

/-! ### Normal keys -/

theorem normalKey_of_size (size : key.length = 32) : normalKey key = ⟨key, size⟩ := by
  apply Subtype.ext
  show (key ++ List.replicate 32 zeroChar).take 32 = key
  rw [List.take_append_of_le_length (Nat.le_of_eq size.symm), List.take_of_length_le]
  exact Nat.le_of_eq size

/-- **Normalising twice changes nothing.** -/
theorem normalKey_normalKey (key : Bytes) : normalKey (normalKey key).val = normalKey key :=
  normalKey_of_size (normalKey key).property

theorem take_size (long : 32 ≤ key.length) : (key.take 32).length = 32 := by
  rw [List.length_take, Nat.min_eq_left long]

/-- A long key is cut. -/
theorem normalKey_of_long (long : 32 ≤ key.length) :
    normalKey key = ⟨key.take 32, take_size long⟩ :=
  Subtype.ext (List.take_append_of_le_length long)

/-- One more `0` does not change the normal form of a short key. -/
theorem normalKey_append (short : key.length < 32) :
    normalKey (key ++ [zeroChar]) = normalKey key := by
  apply Subtype.ext
  have more : key ++ [zeroChar] ++ List.replicate 32 zeroChar =
      key ++ List.replicate 32 zeroChar ++ [zeroChar] := by
    rw [List.append_assoc, List.append_assoc, List.singleton_append, ← List.replicate_succ,
      List.replicate_succ']
  show (key ++ [zeroChar] ++ List.replicate 32 zeroChar).take 32 =
    (key ++ List.replicate 32 zeroChar).take 32
  rw [more, List.take_append_of_le_length]
  rw [List.length_append, List.length_replicate]
  omega

/-! ### The loop of the handlers -/

/-- From a short key, as many turns as bytes are missing. -/
theorem padKey_of_short {missing : Nat} (size : key.length + missing = 32) :
    padKey missing key = some (normalKey key) := by
  induction missing generalizing key with
  | zero =>
    have full : key.length = 32 := size
    rw [padKey, dif_pos full, normalKey_of_size full]
  | succ missing ih =>
    have notFull : key.length ≠ 32 := by omega
    have longer : (key ++ [zeroChar]).length + missing = 32 := by
      rw [List.length_append, List.length_singleton]
      omega
    rw [padKey, dif_neg notFull, if_neg (by omega), ih longer, normalKey_append (by omega)]

/-- **The loop of the handlers ends** with the normal form, for every key. -/
theorem padKey_ends (key : Bytes) : ∃ fuel, padKey fuel key = some (normalKey key) := by
  by_cases long : key.length > 32
  · have notFull : key.length ≠ 32 := by omega
    have size := take_size (Nat.le_of_lt long)
    refine ⟨1, ?_⟩
    rw [padKey, dif_neg notFull, if_pos long, padKey, dif_pos size,
      normalKey_of_long (Nat.le_of_lt long)]
  · exact ⟨32 - key.length, padKey_of_short (by omega)⟩

/-! ### The loop of `baes:new` -/

/-- **A short key keeps the loop going**: `obj.key` is the given key with or without one `0` behind
it, whatever the number of turns. -/
theorem keyLoop_never (short : key.length < 31) (fuel : Nat) {current : Bytes}
    (size : current.length = key.length ∨ current.length = key.length + 1) :
    keyLoop key fuel current = none := by
  have notFull : current.length ≠ 32 := by omega
  induction fuel generalizing current with
  | zero => rw [keyLoop, dif_neg notFull]
  | succ fuel ih =>
    have next : (key ++ [48]).length = key.length + 1 := by
      rw [List.length_append, List.length_singleton]
    rw [keyLoop, dif_neg notFull, if_neg (by omega)]
    exact ih (Or.inr next) (by omega)

/-- A key of 31 bytes or more needs one turn at most. -/
theorem keyLoop_ends (long : 31 ≤ key.length) : keyLoop key 1 key = some (normalKey key) := by
  by_cases full : key.length = 32
  · rw [keyLoop_of_size 1 full, normalKey_of_size full]
  · by_cases longer : key.length > 32
    · have size := take_size (Nat.le_of_lt longer)
      rw [keyLoop, dif_neg full, if_pos longer, keyLoop, dif_pos size,
        normalKey_of_long (Nat.le_of_lt longer)]
    · have size : (key ++ [zeroChar]).length = 32 := by
        rw [List.length_append, List.length_singleton]
        omega
      rw [keyLoop, dif_neg full, if_neg longer, ← normalKey_append (by omega),
        normalKey_of_size size]
      exact dif_pos size

/-- **What the three loops are for**: every one ends with the normal form of the key, and a key in
normal form stays what it is. -/
structure Normalises (key iv : Bytes) : Prop where
  object : ∃ fuel obj, baesNew fuel key iv = some obj ∧ obj.key = normalKey key
  pisk : ∃ fuel, piskKey fuel key = some (normalKey key)
  pizd : ∃ fuel, pizdKey fuel key = some (normalKey key)
  again : ∃ fuel obj, baesNew fuel (normalKey key).val iv = some obj ∧ obj.key = normalKey key

/-- `baes:new` does not return for a short key. -/
theorem baesNew_never (short : key.length < 31) (fuel : Nat) (iv : Bytes) :
    baesNew fuel key iv = none := by
  rw [baesNew, keyLoop_never short fuel (Or.inl rfl), Option.map_none]

/-- **When the three loops normalise a key**: when at most one byte is missing. -/
theorem normalises_iff (key iv : Bytes) : Normalises key iv ↔ 31 ≤ key.length := by
  constructor
  · intro normalises
    by_contra short
    obtain ⟨fuel, obj, returns, _⟩ := normalises.object
    rw [baesNew_never (not_le.mp short)] at returns
    cases returns
  · intro long
    refine ⟨⟨1, _, by rw [baesNew, keyLoop_ends long, Option.map_some], rfl⟩, padKey_ends key,
      padKey_ends key, 0, _, baesNew_of_size 0 iv (normalKey key).property, rfl⟩

/-- **A key of six bytes**: the handlers' loop fills it up, `baes:new` does not return. -/
theorem shortKey_never :
    pizdKey 26 (ascii "secret") = some (normalKey (ascii "secret")) ∧
      (∀ fuel, baesNew fuel (ascii "secret") handlerIv = none) ∧
        ¬ Normalises (ascii "secret") handlerIv := by
  have never : ∀ fuel, baesNew fuel (ascii "secret") handlerIv = none := fun fuel =>
    baesNew_never (by decide) fuel handlerIv
  refine ⟨padKey_of_short (by decide), never, fun normalises => ?_⟩
  obtain ⟨fuel, obj, returns, _⟩ := normalises.object
  rw [never] at returns
  cases returns

/-! ### The handlers -/

/-- The object a handler makes of the message body. -/
def handlerObject (fuel : Nat) (buf : Bytes) : Option Baes :=
  (padKey fuel buf).bind fun key => baesNew fuel key.val handlerIv

/-- **The handlers do not run into the endless loop.** -/
theorem handlerObject_ends (buf : Bytes) :
    ∃ fuel obj, handlerObject fuel buf = some obj ∧ obj.key = normalKey buf := by
  obtain ⟨fuel, ends⟩ := padKey_ends buf
  refine ⟨fuel, ⟨normalKey buf, handlerIv, .table, .table⟩, ?_, rfl⟩
  rw [handlerObject, ends, Option.bind_some, baesNew_of_size fuel handlerIv (normalKey buf).property]

end Keys

end Bacteria.EncDec
