/-
**The buffer of `packData`.**

* `packLoop_inside` — the loop: every byte it writes is inside the block as last reallocated, and
  nothing is set behind the text.
* `packData_ends` — the end of the call: one block more than the text, and a store behind it.
* `TerminatedInside` — what a caller of `packData` needs; `not_terminatedInside` — no call gives it.
-/

import Bacteria.Net.PackData

namespace Bacteria.Net

open Clib

section Buffer

variable {fsplitter ssplitter : Byte}

/-- What `packData`'s loop keeps of its block: its writes were inside, and nothing is set from `sRet`
on. -/
structure Packing.Inside (state : Packing) : Prop where
  inside : state.rVal.InBounds
  blank : state.rVal.BlankFrom state.sRet

/-- **One turn writes one record, and fills its block up.** -/
theorem packPair_inside {state : Packing} (ready : state.Inside) (key value : CString) :
    (packPair fsplitter ssplitter state key value).Inside where
  inside := by
    simp only [packPair, Block.inBounds_write, Block.inBounds_strcpy, Block.inBounds_realloc,
      Block.write_size, Block.strcpy_size, Block.realloc_size, List.length_singleton, ready.inside,
      true_and]
    omega
  blank := by
    have whole := Block.blankFrom_realloc state.rVal (state.sRet + (key.strlen + value.strlen + 2))
    refine Block.BlankFrom.write (Block.BlankFrom.write (Block.BlankFrom.write
      (Block.BlankFrom.write whole ?_) ?_) ?_) ?_
    · simp only [List.length_append, List.length_singleton, CString.strlen]
      omega
    · simp only [List.length_singleton]
      omega
    · simp only [List.length_append, List.length_singleton, CString.strlen]
      omega
    · simp only [List.length_singleton]
      omega

/-- **The loop stays inside its block**, for any number of pairs. -/
theorem packLoop_inside (pairs : List (CString × CString)) {state : Packing}
    (ready : state.Inside) :
    (packLoop fsplitter ssplitter (pairs.map Prod.fst) (pairs.map Prod.snd) state).Inside := by
  induction pairs generalizing state with
  | nil => exact ready
  | cons pair pairs ih => exact ih (packPair_inside ready pair.1 pair.2)

/-- The text of all pairs. -/
def packedText (fsplitter ssplitter : Byte) (pairs : List (CString × CString)) : Bytes :=
  terminate ssplitter (pairs.map (record fsplitter))

/-- **How `packData` ends**: its block has one byte more than the text, which is not set, and the NUL
goes to the byte after that. -/
theorem packData_ends (pairs : List (CString × CString)) (nonempty : pairs ≠ [])
    (fsplitter ssplitter : Byte) :
    ∃ rVal : Block,
      packData (pairs.map Prod.fst) (pairs.map Prod.snd) fsplitter ssplitter =
        some ⟨rVal.write ((packedText fsplitter ssplitter pairs).length + 1) [0],
          (packedText fsplitter ssplitter pairs).length⟩ ∧
      rVal.InBounds ∧ rVal.Holds 0 (packedText fsplitter ssplitter pairs) ∧
      rVal.size = (packedText fsplitter ssplitter pairs).length + 1 ∧
      rVal.cells (packedText fsplitter ssplitter pairs).length = none := by
  have some : ¬ (pairs.map Prod.fst = [] ∨ pairs.map Prod.snd = []) := by simpa using nonempty
  have start : Packing.Inside ⟨Block.malloc 2, 0⟩ := ⟨Block.inBounds_malloc 2, fun _ _ => rfl⟩
  have ready := @packLoop_inside fsplitter ssplitter pairs _ start
  obtain ⟨size, holds⟩ := @packLoop_holds fsplitter ssplitter pairs ⟨Block.malloc 2, 0⟩ [] rfl
    (Block.holds_nil _ 0)
  rw [List.nil_append] at size holds
  rw [packData, if_neg some]
  generalize packLoop fsplitter ssplitter (pairs.map Prod.fst) (pairs.map Prod.snd)
    ⟨Block.malloc 2, 0⟩ = state at ready size holds
  refine ⟨state.rVal.realloc (state.sRet + 1), ?_, ?_, ?_, ?_, ?_⟩
  · rw [packedText, size]
  · exact Block.inBounds_realloc.mpr ready.inside
  · exact Block.holds_realloc holds (by omega)
  · rw [packedText, size, Block.realloc_size]
  · have room : state.sRet < state.sRet + 1 := Nat.lt_succ_self _
    rw [packedText, size]
    simp only [Block.realloc, if_pos room]
    exact ready.blank _ (le_refl _)

/-- **What a caller of `packData` needs**: every byte is written inside the block as last reallocated,
and the block holds the text of all pairs and a NUL right behind it. -/
def TerminatedInside (pairs : List (CString × CString)) (fsplitter ssplitter : Byte) : Prop :=
  ∃ packed, packData (pairs.map Prod.fst) (pairs.map Prod.snd) fsplitter ssplitter = some packed ∧
    packed.rVal.InBounds ∧
      packed.rVal.Holds 0 (packedText fsplitter ssplitter pairs ++ [0])

/-- A call that packs at least one pair writes behind its block. -/
theorem packData_overruns (pairs : List (CString × CString)) (nonempty : pairs ≠ [])
    (fsplitter ssplitter : Byte) {packed : Packed}
    (packs : packData (pairs.map Prod.fst) (pairs.map Prod.snd) fsplitter ssplitter = some packed) :
    ¬ packed.rVal.InBounds := by
  obtain ⟨rVal, ends, _, _, size, _⟩ := packData_ends pairs nonempty fsplitter ssplitter
  obtain rfl := Option.some.inj (ends.symm.trans packs)
  rw [Block.inBounds_write, size, List.length_singleton]
  rintro ⟨_, fits⟩
  omega

/-- **No call of `packData` gives a terminated string inside its buffer.** -/
theorem not_terminatedInside (pairs : List (CString × CString)) (nonempty : pairs ≠ [])
    (fsplitter ssplitter : Byte) : ¬ TerminatedInside pairs fsplitter ssplitter := by
  rintro ⟨packed, packs, inside, _⟩
  exact packData_overruns pairs nonempty fsplitter ssplitter packs inside

/-- One pair. -/
def onePair : List (CString × CString) := [(⟨ascii "k", by decide⟩, ⟨ascii "v", by decide⟩)]

/-- One pair is packed into a block that has no terminator. -/
theorem not_terminatedInside_onePair : ¬ TerminatedInside onePair 61 59 :=
  not_terminatedInside onePair (by decide) 61 59

/-- **The text `k=v;` in a block of five bytes**: the fifth is not set, and the NUL goes to the
sixth. -/
theorem onePair_overrun :
    ¬ TerminatedInside onePair 61 59 ∧
      ∃ packed, packData (onePair.map Prod.fst) (onePair.map Prod.snd) 61 59 = some packed ∧
        packed.rVal.size = 5 ∧ packed.rVal.cells 4 = none ∧ packed.rVal.cells 5 = some 0 ∧
          ¬ packed.rVal.InBounds := by
  have overruns : ∀ packed, packData (onePair.map Prod.fst) (onePair.map Prod.snd) 61 59 =
      some packed → ¬ packed.rVal.InBounds :=
    fun packed packs => packData_overruns onePair (by decide) 61 59 packs
  exact ⟨fun ⟨packed, packs, inside, _⟩ => overruns packed packs inside,
    _, rfl, rfl, rfl, rfl, overruns _ rfl⟩

end Buffer

end Bacteria.Net
