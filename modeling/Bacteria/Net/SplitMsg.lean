/-
**`split_msg`: the field splitter of libbacteria/net.c.**

`splitMsg buf schar msgLen` is the array `split_msg` returns, in order; its length is
`*splitted_size`. Every turn of the loop looks for `schar` in what is left of the text and, when there
is none, for a carriage return; the piece before it is copied through the scratch buffer `str2`, and
the loop ends without a separator or at `max_splitted` pieces.

* `splitMsg_bytes` — the pieces are the first `max_splitted` of: the fields of the text that `schar`
  terminates, then the fields of the remnant that a carriage return terminates.
* `splitMsg_terminate` — a text of clean terminated fields is split into these fields.
-/

import Bacteria.Lib.Fields

namespace Bacteria.Net

open Clib

/-- The cap on the number of pieces, `max_splitted`. -/
def maxSplitted : Nat := 120

/-- The byte the splitter falls back to. -/
def carriageReturn : Byte := 13

/-- `(str = strchr(buf, schar)) != NULL || (str = strchr(buf, '\r')) != NULL`, for `schar` other
than NUL: the text before and after the separator. -/
def nextSeparator (schar : Byte) (buf : Bytes) : Option (Bytes × Bytes) :=
  match cut schar buf with
  | some parts => some parts
  | none => cut carriageReturn buf

/-- The scratch buffer after `bzero(str2, msg_len); memcpy(str2, buf, str - buf)`. -/
def scratch (msgLen : Nat) (piece : Bytes) : Bytes :=
  piece ++ List.replicate (msgLen - piece.length) 0

/-- The do-while loop of `split_msg`; `budget` is `max_splitted - arr_size`. -/
def splitLoop (schar : Byte) (msgLen : Nat) : Nat → Bytes → List CString
  | 0, _ => []
  | budget + 1, buf =>
    match nextSeparator schar buf with
    | none => []
    | some (piece, rest) => cstr (scratch msgLen piece) :: splitLoop schar msgLen budget rest

/-- `split_msg(buf, schar, &size, msg_len)`. -/
def splitMsg (buf : CString) (schar : Byte) (msgLen : Nat) : List CString :=
  splitLoop schar msgLen maxSplitted buf.bytes

/-! ### The pieces -/

/-- A copied piece is read back whole. -/
theorem cstr_scratch (msgLen : Nat) {piece : Bytes} (clean : (0 : Byte) ∉ piece) :
    (cstr (scratch msgLen piece)).bytes = piece := by
  rw [scratch]
  cases msgLen - piece.length with
  | zero => rw [List.replicate_zero, List.append_nil, (cstr_eq_iff piece).mpr clean]
  | succ zeros => rw [List.replicate_succ, cstr_append_nul clean]

/-- What the splitter finds in a text: terminated fields, then fields of the remnant. -/
def pieces (schar : Byte) (buf : Bytes) : List Bytes :=
  fields schar buf ++ fields carriageReturn (remnant schar buf)

theorem pieces_of_nextSeparator {schar : Byte} {buf piece rest : Bytes}
    (found : nextSeparator schar buf = some (piece, rest)) :
    pieces schar buf = piece :: pieces schar rest := by
  unfold nextSeparator at found
  cases first : cut schar buf with
  | some parts =>
    rw [first] at found
    obtain rfl := Option.some.inj found
    rw [pieces, fields_cut first, remnant_cut first]
    rfl
  | none =>
    rw [first] at found
    have clean := cut_eq_none.mp first
    obtain ⟨_, shape⟩ := cut_eq_some.mp found
    have restClean : schar ∉ rest := fun member => clean (by rw [shape]; simp [member])
    rw [pieces, pieces, fields_clean clean, remnant_clean clean, fields_cut found,
      fields_clean restClean, remnant_clean restClean]
    rfl

theorem pieces_of_none {schar : Byte} {buf : Bytes} (none : nextSeparator schar buf = none) :
    pieces schar buf = [] := by
  unfold nextSeparator at none
  cases first : cut schar buf with
  | some parts =>
    rw [first] at none
    cases none
  | none =>
    rw [first] at none
    have clean := cut_eq_none.mp first
    rw [pieces, fields_clean clean, remnant_clean clean, fields_clean (cut_eq_none.mp none)]
    rfl

/-- The text is cut at one byte. -/
theorem nextSeparator_shape {schar : Byte} {buf piece rest : Bytes}
    (found : nextSeparator schar buf = some (piece, rest)) : ∃ c, buf = piece ++ c :: rest := by
  unfold nextSeparator at found
  cases first : cut schar buf with
  | some parts =>
    rw [first] at found
    obtain rfl := Option.some.inj found
    exact ⟨schar, (cut_eq_some.mp first).2⟩
  | none =>
    rw [first] at found
    exact ⟨carriageReturn, (cut_eq_some.mp found).2⟩

/-- Both sides of a separator are parts of the text. -/
theorem nextSeparator_subset {schar : Byte} {buf piece rest : Bytes}
    (found : nextSeparator schar buf = some (piece, rest)) : piece ⊆ buf ∧ rest ⊆ buf := by
  obtain ⟨c, rfl⟩ := nextSeparator_shape found
  exact ⟨fun b member => by simp [member], fun b member => by simp [member]⟩

/-- What is not in a text is in neither of its parts. -/
theorem nextSeparator_clean {schar c : Byte} {buf piece rest : Bytes}
    (found : nextSeparator schar buf = some (piece, rest)) (clean : c ∉ buf) :
    c ∉ piece ∧ c ∉ rest := by
  obtain ⟨pieceSubset, restSubset⟩ := nextSeparator_subset found
  exact ⟨fun member => clean (pieceSubset member), fun member => clean (restSubset member)⟩

theorem splitLoop_bytes (schar : Byte) (msgLen budget : Nat) (buf : Bytes)
    (clean : (0 : Byte) ∉ buf) :
    (splitLoop schar msgLen budget buf).map CString.bytes = (pieces schar buf).take budget := by
  induction budget generalizing buf with
  | zero => rfl
  | succ budget ih =>
    cases found : nextSeparator schar buf with
    | none => simp only [splitLoop, found, List.map_nil, pieces_of_none found, List.take_nil]
    | some parts =>
      obtain ⟨piece, rest⟩ := parts
      obtain ⟨pieceClean, restClean⟩ := nextSeparator_clean found clean
      rw [pieces_of_nextSeparator found, List.take_succ_cons]
      simp only [splitLoop, found, List.map_cons, cstr_scratch msgLen pieceClean,
        ih rest restClean]

/-- **The splitter's law.** -/
theorem splitMsg_bytes (buf : CString) (schar : Byte) (msgLen : Nat) :
    (splitMsg buf schar msgLen).map CString.bytes = (pieces schar buf.bytes).take maxSplitted :=
  splitLoop_bytes schar msgLen maxSplitted buf.bytes buf.noNul

/-- **A text of clean terminated fields is split into these fields**, up to the cap. -/
theorem splitMsg_terminate {schar : Byte} {texts : List Bytes}
    (clean : ∀ text ∈ texts, schar ∉ text) {buf : CString}
    (shape : buf.bytes = terminate schar texts) (msgLen : Nat) :
    (splitMsg buf schar msgLen).map CString.bytes = texts.take maxSplitted := by
  have split : pieces schar (terminate schar texts ++ []) = texts := by
    rw [pieces, fields_terminate clean List.not_mem_nil, remnant_terminate clean List.not_mem_nil,
      fields_clean List.not_mem_nil, List.append_nil]
  rw [List.append_nil] at split
  rw [splitMsg_bytes, shape, split]

end Bacteria.Net
