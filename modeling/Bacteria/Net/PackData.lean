/-
**`packData` and `unpackData` of libbacteria/net.c.**

* `packData keys values fsplitter ssplitter` — the block the encoder builds, every store of its loop
  included, and how many bytes of it the loop wrote.
* `packData_text` — these bytes are `key fsplitter value ssplitter` of all pairs, in order.
* `unpackData data fsplitter ssplitter` — the blocks the decoder writes to `rVal`, in order.
* `unpackField_strings` — the two strings of one field: its key and its value, or no string at all
  for a field without `fsplitter`.
* `unpackData_strings` — the strings of a whole message, from the pieces of `split_msg`.
-/

import Bacteria.Lib.Block
import Bacteria.Net.SplitMsg
import Mathlib.Algebra.Order.Ring.Int

namespace Bacteria.Net

open Clib

/-! ### The encoder -/

/-- The state of `packData`'s loop: the block behind `rVal` and the offset `sRet`. -/
structure Packing where
  rVal : Block
  sRet : Nat

/-- One turn of `packData`'s loop. -/
def packPair (fsplitter ssplitter : Byte) (state : Packing) (key value : CString) : Packing :=
  let fullSize := key.strlen + value.strlen + 2
  let rVal := state.rVal.realloc (state.sRet + fullSize)
  let rVal := rVal.strcpy state.sRet key
  let rVal := rVal.write (key.strlen + state.sRet) [fsplitter]
  let rVal := rVal.strcpy (key.strlen + 1 + state.sRet) value
  let rVal := rVal.write (key.strlen + 1 + value.strlen + state.sRet) [ssplitter]
  ⟨rVal, state.sRet + fullSize⟩

/-- `packData`'s loop: it ends at the first NULL of either array. -/
def packLoop (fsplitter ssplitter : Byte) : List CString → List CString → Packing → Packing
  | key :: keys, value :: values, state =>
    packLoop fsplitter ssplitter keys values (packPair fsplitter ssplitter state key value)
  | [], _, state => state
  | _ :: _, [], state => state

/-- What `packData` leaves behind: its block, and the offset at which the loop stopped writing. -/
structure Packed where
  rVal : Block
  sRet : Nat

/-- The bytes up to and including the last `ssplitter`. -/
def Packed.text (packed : Packed) : Bytes := packed.rVal.take packed.sRet

/-- `packData`; the arrays of C strings stand for their NULL-terminated originals. -/
def packData (dataKeys dataValues : List CString) (fsplitter ssplitter : Byte) : Option Packed :=
  if dataKeys = [] ∨ dataValues = [] then none
  else
    let state := packLoop fsplitter ssplitter dataKeys dataValues ⟨Block.malloc 2, 0⟩
    let rVal := state.rVal.realloc (state.sRet + 1)
    some ⟨rVal.write (state.sRet + 1) [0], state.sRet⟩

/-- `key fsplitter value`. -/
def record (fsplitter : Byte) (pair : CString × CString) : Bytes :=
  pair.1.bytes ++ fsplitter :: pair.2.bytes

theorem packPair_sRet (fsplitter ssplitter : Byte) (state : Packing) (key value : CString) :
    (packPair fsplitter ssplitter state key value).sRet =
      state.sRet + (record fsplitter (key, value) ++ [ssplitter]).length := by
  simp only [packPair, record, CString.strlen, List.length_append, List.length_cons,
    List.length_nil]
  omega

/-- **One turn appends one record.** -/
theorem packPair_holds (fsplitter ssplitter : Byte) {state : Packing} {text : Bytes}
    (size : text.length = state.sRet) (holds : state.rVal.Holds 0 text) (key value : CString) :
    (packPair fsplitter ssplitter state key value).rVal.Holds 0
      (text ++ (record fsplitter (key, value) ++ [ssplitter])) := by
  have grown : (state.rVal.realloc (state.sRet + (key.strlen + value.strlen + 2))).Holds 0 text :=
    Block.holds_realloc holds (by omega)
  have keyEnd : key.strlen + state.sRet = (text ++ key.bytes).length := by
    simp [CString.strlen, size, Nat.add_comm]
  have valueStart : key.strlen + 1 + state.sRet = (text ++ key.bytes ++ [fsplitter]).length := by
    simp [CString.strlen, size]
    omega
  have valueEnd : key.strlen + 1 + value.strlen + state.sRet =
      (text ++ key.bytes ++ [fsplitter] ++ value.bytes).length := by
    simp [CString.strlen, size]
    omega
  have keyCopied := grown.strcpy_append size.symm key
  have keyEnded := keyCopied.write_append keyEnd [fsplitter]
  have valueCopied := keyEnded.strcpy_append valueStart value
  have valueEnded := valueCopied.write_append valueEnd [ssplitter]
  simpa [packPair, record] using valueEnded

/-- **The encoder's loop**: from an offset behind `text`, it appends the records of all pairs. -/
theorem packLoop_holds (fsplitter ssplitter : Byte) (pairs : List (CString × CString))
    {state : Packing} {text : Bytes} (size : text.length = state.sRet)
    (holds : state.rVal.Holds 0 text) :
    let packed := packLoop fsplitter ssplitter (pairs.map Prod.fst) (pairs.map Prod.snd) state
    let whole := text ++ terminate ssplitter (pairs.map (record fsplitter))
    whole.length = packed.sRet ∧ packed.rVal.Holds 0 whole := by
  induction pairs generalizing state text with
  | nil => simpa [packLoop] using ⟨size, holds⟩
  | cons pair pairs ih =>
    obtain ⟨key, value⟩ := pair
    have longer : (text ++ (record fsplitter (key, value) ++ [ssplitter])).length =
        (packPair fsplitter ssplitter state key value).sRet := by
      rw [packPair_sRet, List.length_append, size]
    have step := ih longer (packPair_holds fsplitter ssplitter size holds key value)
    have reorder : text ++ (record fsplitter (key, value) ++ [ssplitter]) ++
        terminate ssplitter (pairs.map (record fsplitter)) =
          text ++ terminate ssplitter (((key, value) :: pairs).map (record fsplitter)) := by
      simp
    rw [reorder] at step
    exact step

/-- **What `packData` writes**: `key fsplitter value ssplitter` of all pairs. -/
theorem packData_text (pairs : List (CString × CString)) (nonempty : pairs ≠ [])
    (fsplitter ssplitter : Byte) :
    ∃ packed, packData (pairs.map Prod.fst) (pairs.map Prod.snd) fsplitter ssplitter = some packed ∧
      packed.text = terminate ssplitter (pairs.map (record fsplitter)) := by
  have some : ¬ (pairs.map Prod.fst = [] ∨ pairs.map Prod.snd = []) := by simpa using nonempty
  obtain ⟨size, holds⟩ := @packLoop_holds fsplitter ssplitter pairs ⟨Block.malloc 2, 0⟩ [] rfl
    (Block.holds_nil _ 0)
  rw [List.nil_append] at size holds
  refine ⟨_, by rw [packData, if_neg some], ?_⟩
  rw [Packed.text, ← size]
  refine Block.take_of_holds (Block.holds_write_of_disjoint (Block.holds_realloc holds ?_) ?_)
  · omega
  · left
    omega

/-! ### The decoder -/

/-- `IGNOREINFOBYTE`: what the decoder stores for a field without `fsplitter`. -/
def ignoreInfoByte : Byte := 3

/-- The counters of `unpackData`'s first loop. -/
structure SplitterCount where
  fSplitter : Nat
  sSplitter : Nat
  sData : Nat

/-- One turn of the counting loop. -/
def countSplitter (fsplitter ssplitter : Byte) (count : SplitterCount) (b : Byte) : SplitterCount :=
  if b = fsplitter then ⟨count.fSplitter + 1, count.sSplitter, count.sData + 1⟩
  else if b = ssplitter then ⟨count.fSplitter, count.sSplitter + 1, count.sData + 1⟩
  else ⟨count.fSplitter, count.sSplitter, count.sData + 1⟩

/-- The counting loop of `unpackData`. -/
def countSplitters (fsplitter ssplitter : Byte) (data : Bytes) : SplitterCount :=
  data.foldl (countSplitter fsplitter ssplitter) ⟨0, 0, 0⟩

/-- The two blocks `unpackData` makes of one piece, for an `fsplitter` other than NUL. The mark of a
piece without `fsplitter` is a single byte without a terminator; a value is copied together with its
terminator. -/
def unpackField (fsplitter : Byte) (piece : CString) : List Block :=
  match cut fsplitter piece.bytes with
  | none =>
    [(Block.malloc 1).write 0 [ignoreInfoByte], (Block.malloc 1).write 0 [ignoreInfoByte]]
  | some (key, value) =>
    let s1 := key.length
    let s2 := value.length + 1
    [((Block.malloc (s1 + 1)).bzero (s1 + 1)).write 0 key,
      ((Block.malloc (s2 + 1)).bzero (s2 + 1)).write 0 (value ++ [0])]

/-- What `unpackData` returns: the blocks stored in `rVal[0], rVal[1], …`, and the new `*rt_size`. -/
structure Unpacked where
  rVal : List Block
  rtSize : Nat

/-- The C strings behind `rVal`, `none` for a block without terminator. -/
def Unpacked.strings (unpacked : Unpacked) : List (Option Bytes) := unpacked.rVal.map Block.cString?

/-- `unpackData(data, rt_size, fsplitter, ssplitter)`, the pieces taken from the last one down. The
array behind `rVal`, sized by what `*rt_size` holds on entry, is taken to have room for them. -/
def unpackData (data : CString) (fsplitter ssplitter : Byte) : Option Unpacked :=
  let count := countSplitters fsplitter ssplitter data.bytes
  if count.sSplitter ≠ count.fSplitter then none
  else
    let ssplitted := splitMsg data ssplitter count.sData
    some {
      rVal := ssplitted.reverse.flatMap (unpackField fsplitter)
      rtSize := ssplitted.length * 2 }

theorem countSplitters_eq {fsplitter ssplitter : Byte} (distinct : fsplitter ≠ ssplitter)
    (data : Bytes) : countSplitters fsplitter ssplitter data =
      ⟨data.count fsplitter, data.count ssplitter, data.length⟩ := by
  have general : ∀ count : SplitterCount, data.foldl (countSplitter fsplitter ssplitter) count =
      ⟨count.fSplitter + data.count fsplitter, count.sSplitter + data.count ssplitter,
        count.sData + data.length⟩ := by
    induction data with
    | nil => intro count; rfl
    | cons b data ih =>
      intro count
      rw [List.foldl_cons, ih, List.length_cons]
      by_cases isF : b = fsplitter
      · subst isF
        rw [countSplitter, if_pos rfl, List.count_cons_self, List.count_cons_of_ne distinct]
        simp only [SplitterCount.mk.injEq, true_and]
        omega
      · by_cases isS : b = ssplitter
        · subst isS
          rw [countSplitter, if_neg isF, if_pos rfl, List.count_cons_self,
            List.count_cons_of_ne isF]
          simp only [SplitterCount.mk.injEq, true_and]
          omega
        · rw [countSplitter, if_neg isF, if_neg isS, List.count_cons_of_ne isF,
            List.count_cons_of_ne isS]
          simp only [SplitterCount.mk.injEq, true_and]
          omega
  rw [countSplitters, general]
  simp

/-- The result for an accepted message. -/
def accepted (data : CString) (fsplitter ssplitter : Byte) : Unpacked :=
  let ssplitted := splitMsg data ssplitter data.strlen
  { rVal := ssplitted.reverse.flatMap (unpackField fsplitter)
    rtSize := ssplitted.length * 2 }

/-- **`unpackData` accepts a message when it has as many splitters of one kind as of the other.** -/
theorem unpackData_eq {fsplitter ssplitter : Byte} (distinct : fsplitter ≠ ssplitter)
    (data : CString) :
    unpackData data fsplitter ssplitter =
      if data.bytes.count ssplitter = data.bytes.count fsplitter then
        some (accepted data fsplitter ssplitter)
      else none := by
  simp only [unpackData, countSplitters_eq distinct, ite_not]
  rfl

/-! ### The strings of a field -/

/-- The two strings of a field, in the decoder's own terms: what stands before and after the first
`fsplitter`; a field without one has none. -/
def fieldStrings (fsplitter : Byte) (field : Bytes) : List (Option Bytes) :=
  match cut fsplitter field with
  | none => [none, none]
  | some (key, value) => [some key, some value]

/-- **The blocks made of a piece hold its two strings.** -/
theorem unpackField_strings (fsplitter : Byte) (piece : CString) :
    (unpackField fsplitter piece).map Block.cString? = fieldStrings fsplitter piece.bytes := by
  cases found : cut fsplitter piece.bytes with
  | none =>
    have unterminated : ((Block.malloc 1).write 0 [ignoreInfoByte]).cString? = none := rfl
    simp only [unpackField, fieldStrings, found, List.map_cons, List.map_nil, unterminated]
  | some parts =>
    obtain ⟨key, value⟩ := parts
    obtain ⟨_, shape⟩ := cut_eq_some.mp found
    have clean := piece.noNul
    rw [shape, List.mem_append, List.mem_cons, not_or, not_or] at clean
    have keyString := Block.cString?_of_zeroed clean.1 (Nat.lt_succ_self _)
    have valueString : (((Block.malloc (value.length + 1 + 1)).bzero (value.length + 1 + 1)).write 0
        (value ++ [0])).cString? = some value := by
      refine Block.cString?_of_holds clean.2.2 (Block.holds_write _ 0 _) ?_
      show value.length < value.length + 1 + 1
      omega
    simp only [unpackField, fieldStrings, found, List.map_cons, List.map_nil, keyString,
      valueString]

/-- **The strings of an accepted message**: those of the pieces of `split_msg`, last piece first. -/
theorem accepted_strings (data : CString) (fsplitter ssplitter : Byte) :
    (accepted data fsplitter ssplitter).strings =
      ((pieces ssplitter data.bytes).take maxSplitted).reverse.flatMap (fieldStrings fsplitter) := by
  rw [← splitMsg_bytes data ssplitter data.strlen, ← List.map_reverse, List.flatMap_map,
    Unpacked.strings, accepted, List.map_flatMap]
  exact List.flatMap_congr fun piece _ => unpackField_strings fsplitter piece

theorem accepted_rtSize (data : CString) (fsplitter ssplitter : Byte) :
    (accepted data fsplitter ssplitter).rtSize =
      2 * ((pieces ssplitter data.bytes).take maxSplitted).length := by
  rw [← splitMsg_bytes data ssplitter data.strlen, List.length_map, Nat.mul_comm]
  rfl

end Bacteria.Net
