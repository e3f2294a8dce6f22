/-
**`split_msg` over its memory: the scratch buffer and the pointer that walks the text.**

`splitTurns` is the loop with the memory from `buf` on, the array `str2` and the copies made into it;
`splitCopying` is the call. `none` stands for a read past the memory or past `str2`.

* `strchr_append_nul` — the search in a terminated text is `cut` in the text.
* `splitTurns_ends` — one induction over the turns: the loop ends, returns what `splitLoop` returns,
  and every copy leaves its terminator inside `str2`.
* `splitCopying_eq_splitMsg` — so the call returns what `splitMsg` says.
* `splitCopying_reference` — the call against the two-level split of the text.
-/

import Bacteria.Lib.Block
import Bacteria.Net.SplitMsg

namespace Bacteria.Net

open Clib

/-- `strchr(memory, c)`: what lies before and behind the first `c`, null when the terminator comes
before it; `none` when the memory ends before either. -/
def strchr (c : Byte) : Bytes → Option (Option (Bytes × Bytes))
  | [] => none
  | b :: memory =>
    if b = c then some (some ([], memory))
    else if b = 0 then some none
    else (strchr c memory).map fun found => found.map fun parts => (b :: parts.1, parts.2)

/-- `(str = strchr(buf, schar)) != NULL || (str = strchr(buf, '\r')) != NULL`. -/
def separatorIn (schar : Byte) (memory : Bytes) : Option (Option (Bytes × Bytes)) :=
  match strchr schar memory with
  | none => none
  | some (some parts) => some (some parts)
  | some none => strchr carriageReturn memory

/-- One `memcpy(str2, buf, str - buf)`: the bytes it copies, and `str2` after it. -/
structure Copy where
  piece : Bytes
  str2 : Block

/-- What the loop leaves: the array, `arr_size`, and the copies in order. -/
structure Splitted where
  splitted : List Bytes
  arrSize : Nat
  copies : List Copy

/-- The do-while loop of `split_msg`; the counter is `max_splitted - arr_size`. -/
def splitTurns (schar : Byte) (msgLen : Nat) : Nat → Bytes → Block → Option Splitted
  | 0, _, _ => some ⟨[], 0, []⟩
  | budget + 1, buf, str2 =>
    let str2 := str2.bzero msgLen
    match separatorIn schar buf with
    | none => none
    | some none => some ⟨[], 0, []⟩
    | some (some (piece, rest)) =>
      let str2 := str2.write 0 piece
      match str2.cString? with
      | none => none
      | some field =>
        (splitTurns schar msgLen budget rest str2).map fun later =>
          ⟨field :: later.splitted, later.arrSize + 1, ⟨piece, str2⟩ :: later.copies⟩

/-- `split_msg(buf, schar, &size, msg_len)`; `char str2[msg_len]` is not initialised. -/
def splitCopying (buf : Bytes) (schar : Byte) (msgLen : Nat) : Option Splitted :=
  splitTurns schar msgLen maxSplitted buf (Block.malloc msgLen)

/-! ### The search in a terminated text -/

theorem strchr_append_nul {c : Byte} (notNul : c ≠ 0) {text : Bytes} (clean : (0 : Byte) ∉ text)
    (behind : Bytes) :
    strchr c (text ++ 0 :: behind) =
      some ((cut c text).map fun parts => (parts.1, parts.2 ++ 0 :: behind)) := by
  induction text with
  | nil =>
    rw [List.nil_append, strchr, if_neg (Ne.symm notNul), if_pos rfl]
    rfl
  | cons b text ih =>
    have different : b ≠ 0 := fun zero => clean (by simp [zero])
    have tailClean : (0 : Byte) ∉ text := fun member => clean (List.mem_cons_of_mem _ member)
    rw [List.cons_append, strchr, cut]
    by_cases same : b = c
    · rw [if_pos same, if_pos same]
      rfl
    · rw [if_neg same, if_neg same, if_neg different, ih tailClean, Option.map_some,
        Option.map_map, Option.map_map]
      rfl

theorem separatorIn_append_nul {schar : Byte} (notNul : schar ≠ 0) {text : Bytes}
    (clean : (0 : Byte) ∉ text) (behind : Bytes) :
    separatorIn schar (text ++ 0 :: behind) =
      some ((nextSeparator schar text).map fun parts => (parts.1, parts.2 ++ 0 :: behind)) := by
  have returnNotNul : carriageReturn ≠ 0 := by decide
  rw [separatorIn, strchr_append_nul notNul clean, nextSeparator]
  cases cut schar text with
  | some parts => rfl
  | none => exact strchr_append_nul returnNotNul clean behind

/-- A piece is shorter than the text it is found in. -/
theorem nextSeparator_length {schar : Byte} {buf piece rest : Bytes}
    (found : nextSeparator schar buf = some (piece, rest)) :
    piece.length + rest.length + 1 = buf.length := by
  obtain ⟨c, rfl⟩ := nextSeparator_shape found
  rw [List.length_append, List.length_cons, Nat.add_assoc]

/-! ### The copies -/

/-- A copy that stays inside `str2`, and the terminator behind it. -/
structure Copy.Terminated (copy : Copy) (msgLen : Nat) : Prop where
  size : copy.str2.size = msgLen
  inside : copy.str2.InBounds
  room : copy.piece.length < msgLen
  holds : copy.str2.Holds 0 (copy.piece ++ [0])

/-- **One turn's copy** over a buffer that was in bounds before. -/
theorem copy_terminated {str2 : Block} (inside : str2.InBounds) {piece : Bytes}
    (room : piece.length < str2.size) :
    Copy.Terminated ⟨piece, (str2.bzero str2.size).write 0 piece⟩ str2.size where
  size := rfl
  inside := by
    have zeroed : (str2.bzero str2.size).InBounds :=
      Block.inBounds_write.mpr ⟨inside, by rw [List.length_replicate, Nat.zero_add]⟩
    refine Block.inBounds_write.mpr ⟨zeroed, ?_⟩
    show 0 + piece.length ≤ str2.size
    omega
  room := room
  holds := by
    have zeroed : (str2.bzero str2.size).Holds (0 + piece.length) (List.replicate 1 0) :=
      Block.holds_bzero _ (by omega)
    exact Block.holds_append (Block.holds_write _ 0 piece)
      (Block.holds_write_of_disjoint zeroed (Or.inr (by omega)))

/-- What is read back from `str2` is the piece. -/
theorem Copy.Terminated.field {copy : Copy} {msgLen : Nat} (ok : copy.Terminated msgLen)
    (clean : (0 : Byte) ∉ copy.piece) : copy.str2.cString? = some copy.piece :=
  Block.cString?_of_holds clean ok.holds (by rw [ok.size]; exact ok.room)

/-- **The loop ends on a terminated text**, whatever `str2` held: it returns what `splitLoop`
returns, and every copy is terminated inside `str2`. -/
theorem splitTurns_ends {schar : Byte} (notNul : schar ≠ 0) (behind : Bytes) (budget : Nat)
    {text : Bytes} (clean : (0 : Byte) ∉ text) {str2 : Block} (inside : str2.InBounds)
    (room : text.length ≤ str2.size) :
    ∃ out, splitTurns schar str2.size budget (text ++ 0 :: behind) str2 = some out ∧
      out.splitted = (splitLoop schar str2.size budget text).map CString.bytes ∧
      out.arrSize = out.splitted.length ∧
      out.copies.map Copy.piece = out.splitted ∧
      ∀ copy ∈ out.copies, copy.Terminated str2.size := by
  induction budget generalizing text str2 with
  | zero => exact ⟨⟨[], 0, []⟩, rfl, rfl, rfl, rfl, fun _ member => by cases member⟩
  | succ budget ih =>
    rw [splitTurns, separatorIn_append_nul notNul clean, splitLoop]
    cases found : nextSeparator schar text with
    | none => exact ⟨⟨[], 0, []⟩, rfl, rfl, rfl, rfl, fun _ member => by cases member⟩
    | some parts =>
      obtain ⟨piece, rest⟩ := parts
      have lengths := nextSeparator_length found
      obtain ⟨pieceClean, restClean⟩ := nextSeparator_clean found clean
      have copied := copy_terminated inside (show piece.length < str2.size by omega)
      obtain ⟨later, turns, fields, size, pieces, terminated⟩ :=
        ih restClean copied.inside (by rw [copied.size]; omega)
      rw [copied.size] at turns fields terminated
      refine ⟨⟨piece :: later.splitted, later.arrSize + 1,
        ⟨piece, (str2.bzero str2.size).write 0 piece⟩ :: later.copies⟩, ?_, ?_, ?_, ?_, ?_⟩
      · simp only [Option.map_some, copied.field pieceClean, turns]
      · rw [List.map_cons, cstr_scratch str2.size pieceClean, fields]
      · rw [size, List.length_cons]
      · rw [List.map_cons, pieces]
      · intro copy member
        rcases List.mem_cons.mp member with rfl | member
        · exact copied
        · exact terminated copy member

/-- **`split_msg` over its memory returns what `splitMsg` says.** -/
theorem splitCopying_eq_splitMsg (buf : CString) {schar : Byte} (notNul : schar ≠ 0)
    (behind : Bytes) {msgLen : Nat} (room : buf.strlen ≤ msgLen) :
    ∃ out, splitCopying (buf.bytes ++ 0 :: behind) schar msgLen = some out ∧
      out.splitted = (splitMsg buf schar msgLen).map CString.bytes ∧
      out.arrSize = out.splitted.length ∧
      out.copies.map Copy.piece = out.splitted ∧
      ∀ copy ∈ out.copies, copy.Terminated msgLen :=
  splitTurns_ends notNul behind maxSplitted buf.noNul (Block.inBounds_malloc msgLen) room

/-- **`split_msg` against its reference**: with `k + 1` pieces of the text between the separators and
`m + 1` pieces of the last of them between carriage returns, the first `min(120, k + m)` of all but
the last of either are returned in order, and every copy into `str2` leaves a terminator inside it. -/
theorem splitCopying_reference (buf : CString) {schar : Byte} (notNul : schar ≠ 0)
    (behind : Bytes) :
    let p := buf.bytes.splitOn schar
    let q := (p.getLast (List.splitOn_ne_nil schar buf.bytes)).splitOn carriageReturn
    ∃ out, splitCopying (buf.bytes ++ 0 :: behind) schar buf.strlen = some out ∧
      out.splitted = (p.dropLast ++ q.dropLast).take 120 ∧
      out.arrSize = min 120 ((p.length - 1) + (q.length - 1)) ∧
      out.copies.map Copy.piece = out.splitted ∧
      ∀ copy ∈ out.copies, copy.Terminated buf.strlen := by
  intro p q
  obtain ⟨out, ends, splitted, size, pieces, terminated⟩ :=
    splitCopying_eq_splitMsg buf notNul behind (le_refl buf.strlen)
  have reference : out.splitted = (p.dropLast ++ q.dropLast).take 120 := by
    rw [splitted, splitMsg_bytes]
    rfl
  refine ⟨out, ends, reference, ?_, pieces, terminated⟩
  rw [size, reference, List.length_take, List.length_append, List.length_dropLast,
    List.length_dropLast]

/-- The text `a;b\rc` between semicolons: one terminated piece, then one before the carriage return. -/
theorem splitCopying_reference_sample :
    ∃ out, splitCopying (ascii "a;b\rc" ++ [0]) 59 5 = some out ∧
      out.splitted = [ascii "a", ascii "b"] ∧ out.arrSize = 2 := by
  have notNul : (59 : Byte) ≠ 0 := by decide
  obtain ⟨out, ends, splitted, size, _⟩ :=
    splitCopying_reference ⟨ascii "a;b\rc", by decide⟩ notNul []
  refine ⟨out, ends, ?_, ?_⟩
  · rw [splitted]
    decide
  · rw [size]
    decide

end Bacteria.Net
