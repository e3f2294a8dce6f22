/-
**`join_data` and `join_addresses` of libbacteria/net.c, against `split_msg`.**

* `joinData_text` — `join_data` terminates both of its strings.
* `joinAddresses_text` — `join_addresses` puts a separator between its addresses, none behind the last.
* `joinData_inBounds`, `joinAddresses_inBounds` — neither writes past its block.
* `splitMsg_joinData`, `splitMsg_joinAddresses` — what the splitter makes of either text: both strings,
  and all addresses but the last.
* `roundTrips_iff` — splitting undoes joining exactly for `join_data`.
-/

import Bacteria.Lib.Block
import Bacteria.Net.SplitMsg

namespace Bacteria.Net

open Clib

/-- `SPLITADDRCHAR`. -/
def splitAddrChar : Byte := 59

/-- `join_data(a, b, split_char)`: both strings, a separator behind each. -/
def joinData (a b : CString) (splitChar : Byte) : Block :=
  let ret := Block.malloc (a.strlen + b.strlen + 3)
  let ret := ret.write 0 a.bytes
  let ret := ret.write a.strlen [splitChar]
  let ret := ret.write (a.strlen + 1) b.bytes
  let ret := ret.write (a.strlen + b.strlen + 1) [splitChar]
  ret.write (a.strlen + b.strlen + 2) [0]

/-- The state of `join_addresses`: the block behind `pRet` and the offset of its last separator. -/
structure Joining where
  pRet : Block
  cSize : Nat

/-- One turn of `join_addresses`' loop. -/
def joinAddress (state : Joining) (addr : CString) : Joining :=
  let addrSize := addr.strlen + 1
  let pRet := state.pRet.realloc (addrSize + state.cSize + 1)
  let pRet := pRet.write (state.cSize + 1) (addr.bytes ++ [0])
  let cSize := state.cSize + addrSize
  ⟨pRet.write cSize [splitAddrChar], cSize⟩

/-- What `join_addresses` does before its loop. -/
def joinFirst (addr : CString) : Joining :=
  let pRet := (Block.malloc (addr.strlen + 1)).strcpy 0 addr
  ⟨pRet.write addr.strlen [splitAddrChar], addr.strlen⟩

/-- `join_addresses(addr, others, NULL)`: the terminator takes the place of the last separator. -/
def joinAddresses (addr : CString) (others : List CString) : Block :=
  let state := others.foldl joinAddress (joinFirst addr)
  let pRet := state.pRet.realloc (state.cSize + 1)
  pRet.write state.cSize [0]

/-! ### `join_data` -/

theorem joinData_holds (a b : CString) (splitChar : Byte) :
    (joinData a b splitChar).Holds 0 (terminate splitChar [a.bytes, b.bytes] ++ [0]) := by
  have firstEnd : a.strlen = a.bytes.length := rfl
  have secondStart : a.strlen + 1 = (a.bytes ++ [splitChar]).length := by
    rw [List.length_append, List.length_singleton, CString.strlen]
  have secondEnd : a.strlen + b.strlen + 1 = (a.bytes ++ [splitChar] ++ b.bytes).length := by
    rw [List.length_append, ← secondStart, CString.strlen, CString.strlen]
    omega
  have textEnd : a.strlen + b.strlen + 2 =
      (a.bytes ++ [splitChar] ++ b.bytes ++ [splitChar]).length := by
    rw [List.length_append, List.length_singleton, ← secondEnd]
  have first := Block.holds_write (Block.malloc (a.strlen + b.strlen + 3)) 0 a.bytes
  have firstEnded := first.write_append firstEnd [splitChar]
  have second := firstEnded.write_append secondStart b.bytes
  have secondEnded := second.write_append secondEnd [splitChar]
  have ended := secondEnded.write_append textEnd [0]
  simpa [joinData] using ended

theorem joinData_inBounds (a b : CString) (splitChar : Byte) :
    (joinData a b splitChar).InBounds := by
  simp only [joinData, Block.inBounds_write, Block.inBounds_malloc, Block.write_size,
    Block.malloc_size, List.length_singleton, CString.strlen, true_and]
  omega

/-- **Both strings, each with its separator.** -/
theorem joinData_text (a b : CString) {splitChar : Byte} (notNul : splitChar ≠ 0) :
    (joinData a b splitChar).cString? = some (terminate splitChar [a.bytes, b.bytes]) := by
  refine Block.cString?_of_holds ?_ (joinData_holds a b splitChar) ?_
  · simp [a.noNul, b.noNul, Ne.symm notNul]
  · simp only [joinData, Block.write_size, Block.malloc_size, terminate_cons, terminate_nil,
      List.length_append, List.length_cons, List.length_nil, CString.strlen]
    omega

theorem splitMsg_joinData {a b : CString} {splitChar : Byte} (aClean : splitChar ∉ a.bytes)
    (bClean : splitChar ∉ b.bytes) {text : CString}
    (shape : text.bytes = terminate splitChar [a.bytes, b.bytes]) (msgLen : Nat) :
    (splitMsg text splitChar msgLen).map CString.bytes = [a.bytes, b.bytes] := by
  have clean : ∀ field ∈ [a.bytes, b.bytes], splitChar ∉ field := by
    simp only [List.forall_mem_cons, List.not_mem_nil, false_implies, implies_true, and_true]
    exact ⟨aClean, bClean⟩
  exact splitMsg_terminate clean shape msgLen

/-! ### `join_addresses` -/

/-- The addresses with separators between them. -/
def addressText (addresses : List CString) : Bytes :=
  [splitAddrChar].intercalate (addresses.map CString.bytes)

theorem addressText_append (addresses : List CString) (nonempty : addresses ≠ [])
    (addr : CString) :
    addressText (addresses ++ [addr]) = addressText addresses ++ splitAddrChar :: addr.bytes := by
  induction addresses with
  | nil => exact absurd rfl nonempty
  | cons first addresses ih =>
    cases addresses with
    | nil => simp [addressText, List.intercalate_cons_cons]
    | cons second addresses =>
      have inner := ih (List.cons_ne_nil _ _)
      simp only [addressText, List.cons_append, List.map_cons, List.intercalate_cons_cons,
        List.append_assoc] at inner ⊢
      rw [inner]

/-- What the loop of `join_addresses` keeps: the text so far and its separator, within bounds. -/
structure Joining.Ready (state : Joining) (text : Bytes) : Prop where
  cSize : state.cSize = text.length
  holds : state.pRet.Holds 0 (text ++ [splitAddrChar])
  inside : state.pRet.InBounds

theorem joinFirst_ready (addr : CString) : (joinFirst addr).Ready addr.bytes where
  cSize := rfl
  holds := by
    have copied := Block.holds_write (Block.malloc (addr.strlen + 1)) 0 (addr.bytes ++ [0])
    exact copied.left.write_append rfl [splitAddrChar]
  inside := by
    simp only [joinFirst, Block.inBounds_write, Block.inBounds_strcpy, Block.inBounds_malloc,
      Block.strcpy_size, Block.malloc_size, List.length_singleton, true_and]
    omega

/-- **One turn appends one address** behind the last separator. -/
theorem joinAddress_ready {state : Joining} {text : Bytes} (ready : state.Ready text)
    (addr : CString) :
    (joinAddress state addr).Ready (text ++ splitAddrChar :: addr.bytes) where
  cSize := by
    simp only [joinAddress, ready.cSize, List.length_append, List.length_cons, CString.strlen]
  holds := by
    have fits : 0 + (text ++ [splitAddrChar]).length ≤ addr.strlen + 1 + state.cSize + 1 := by
      rw [List.length_append, List.length_singleton, ready.cSize]
      omega
    have addrStart : state.cSize + 1 = (text ++ [splitAddrChar]).length := by
      rw [List.length_append, List.length_singleton, ready.cSize]
    have addrEnd : state.cSize + (addr.strlen + 1) =
        (text ++ [splitAddrChar] ++ addr.bytes).length := by
      rw [List.length_append, ← addrStart, CString.strlen]
      omega
    have grown := Block.holds_realloc ready.holds fits
    have copied := grown.strcpy_append addrStart addr
    have ended := copied.write_append addrEnd [splitAddrChar]
    simpa [joinAddress, Block.strcpy] using ended
  inside := by
    simp only [joinAddress, Block.inBounds_write, Block.inBounds_realloc, Block.write_size,
      Block.realloc_size, List.length_append, List.length_singleton, CString.strlen, ready.inside,
      true_and]
    omega

/-- **The loop**: from a text so far, it appends the other addresses. -/
theorem joinLoop_ready {state : Joining} {addresses : List CString} (nonempty : addresses ≠ [])
    (ready : state.Ready (addressText addresses)) (others : List CString) :
    (others.foldl joinAddress state).Ready (addressText (addresses ++ others)) := by
  induction others generalizing state addresses with
  | nil => rwa [List.append_nil]
  | cons addr others ih =>
    have step := joinAddress_ready ready addr
    rw [← addressText_append addresses nonempty] at step
    have rest := ih (List.append_ne_nil_of_right_ne_nil _ (List.cons_ne_nil _ _)) step
    rwa [List.append_assoc] at rest

theorem joinAddresses_ready (addr : CString) (others : List CString) :
    (others.foldl joinAddress (joinFirst addr)).Ready (addressText (addr :: others)) := by
  have first : (joinFirst addr).Ready (addressText [addr]) := by
    rw [addressText, List.map_singleton, List.intercalate_singleton]
    exact joinFirst_ready addr
  exact joinLoop_ready (List.cons_ne_nil _ _) first others

theorem joinAddresses_inBounds (addr : CString) (others : List CString) :
    (joinAddresses addr others).InBounds := by
  have ready := joinAddresses_ready addr others
  rw [joinAddresses, Block.inBounds_write, Block.inBounds_realloc, Block.realloc_size]
  exact ⟨ready.inside, le_refl _⟩

theorem addressText_noNul (addresses : List CString) : (0 : Byte) ∉ addressText addresses := by
  induction addresses with
  | nil => exact List.not_mem_nil
  | cons first addresses ih =>
    cases addresses with
    | nil => simpa [addressText] using first.noNul
    | cons second addresses =>
      rw [addressText, List.map_cons, List.map_cons, List.intercalate_cons_cons, List.mem_append,
        List.mem_append, not_or, not_or]
      exact ⟨⟨first.noNul, by decide⟩, ih⟩

/-- **The addresses with separators between them**, and none behind the last. -/
theorem joinAddresses_text (addr : CString) (others : List CString) :
    (joinAddresses addr others).cString? = some (addressText (addr :: others)) := by
  have ready := joinAddresses_ready addr others
  have kept := Block.holds_realloc ready.holds.left
    (show 0 + (addressText (addr :: others)).length ≤
      (others.foldl joinAddress (joinFirst addr)).cSize + 1 by rw [ready.cSize]; omega)
  refine Block.cString?_of_holds (addressText_noNul _) (kept.write_append ready.cSize [0]) ?_
  show _ < (others.foldl joinAddress (joinFirst addr)).cSize + 1
  rw [ready.cSize]
  omega

theorem splitOn_addressText {addresses : List CString} (nonempty : addresses ≠ [])
    (clean : ∀ addr ∈ addresses, splitAddrChar ∉ addr.bytes) :
    (addressText addresses).splitOn splitAddrChar = addresses.map CString.bytes := by
  refine List.splitOn_intercalate splitAddrChar (fun text member => ?_) ?_
  · obtain ⟨addr, inList, rfl⟩ := List.mem_map.mp member
    exact clean addr inList
  · exact fun empty => nonempty (List.map_eq_nil_iff.mp empty)

/-- **The splitter drops the last address.** -/
theorem splitMsg_joinAddresses {addresses : List CString} (nonempty : addresses ≠ [])
    (clean : ∀ addr ∈ addresses, splitAddrChar ∉ addr.bytes ∧ carriageReturn ∉ addr.bytes)
    {text : CString} (shape : text.bytes = addressText addresses) (msgLen : Nat) :
    (splitMsg text splitAddrChar msgLen).map CString.bytes =
      (addresses.dropLast.map CString.bytes).take maxSplitted := by
  have split := splitOn_addressText nonempty fun addr member => (clean addr member).1
  have terminated : fields splitAddrChar (addressText addresses) =
      addresses.dropLast.map CString.bytes := by
    rw [fields, split, List.map_dropLast]
  have lastClean : carriageReturn ∉ remnant splitAddrChar (addressText addresses) := by
    have last : remnant splitAddrChar (addressText addresses) =
        (addresses.getLast nonempty).bytes := by
      simp only [remnant, split, List.getLast_map]
    rw [last]
    exact (clean _ (List.getLast_mem nonempty)).2
  rw [splitMsg_bytes, shape, pieces, terminated, fields_clean lastClean, List.append_nil]

/-! ### The round trip -/

/-- A call of one of the two joiners. -/
inductive Join where
  | data (a b : CString) (splitChar : Byte)
  | addresses (addr : CString) (others : List CString)

namespace Join

/-- The block the joiner returns. -/
def joined : Join → Block
  | data a b splitChar => joinData a b splitChar
  | addresses addr others => joinAddresses addr others

/-- The separator it uses. -/
def separator : Join → Byte
  | data _ _ splitChar => splitChar
  | addresses _ _ => splitAddrChar

/-- The strings it was given. -/
def parts : Join → List CString
  | data a b _ => [a, b]
  | addresses addr others => addr :: others

/-- No string holds the separator; addresses are at most as many as the splitter takes, and hold no
carriage return. -/
def Separable : Join → Prop
  | data a b splitChar => splitChar ≠ 0 ∧ splitChar ∉ a.bytes ∧ splitChar ∉ b.bytes
  | addresses addr others => (addr :: others).length ≤ 120 ∧
    ∀ address ∈ addr :: others, splitAddrChar ∉ address.bytes ∧ carriageReturn ∉ address.bytes

instance : DecidablePred Separable
  | data a b splitChar =>
    inferInstanceAs (Decidable (splitChar ≠ 0 ∧ splitChar ∉ a.bytes ∧ splitChar ∉ b.bytes))
  | addresses addr others =>
    inferInstanceAs (Decidable ((addr :: others).length ≤ 120 ∧
      ∀ address ∈ addr :: others,
        splitAddrChar ∉ address.bytes ∧ carriageReturn ∉ address.bytes))

/-- The joined text, as a C string, is split into the strings that were joined. -/
def RoundTrips (join : Join) : Prop :=
  ∃ text : CString, join.joined.cString? = some text.bytes ∧
    splitMsg text join.separator text.strlen = join.parts

/-- The call is one of `join_data`. -/
def IsData : Join → Prop
  | data _ _ _ => True
  | addresses _ _ => False

end Join

/-- A list of C strings is determined by their bytes. -/
theorem map_bytes_injective {first second : List CString}
    (same : first.map CString.bytes = second.map CString.bytes) : first = second :=
  List.map_injective_iff.mpr (fun _ _ => CString.ext) same

/-- Of joined addresses the splitter returns one too few. -/
theorem not_roundTrips_addresses {addr : CString} {others : List CString}
    (clean : ∀ address ∈ addr :: others,
      splitAddrChar ∉ address.bytes ∧ carriageReturn ∉ address.bytes) :
    ¬ (Join.addresses addr others).RoundTrips := by
  rintro ⟨text, joined, split⟩
  have shape : text.bytes = addressText (addr :: others) :=
    (Option.some.inj ((joinAddresses_text addr others).symm.trans joined)).symm
  have pieces := splitMsg_joinAddresses (List.cons_ne_nil addr others) clean shape text.strlen
  have whole : (splitMsg text splitAddrChar text.strlen).length = others.length + 1 :=
    congrArg List.length split
  have lengths := congrArg List.length pieces
  rw [List.length_map, whole, List.length_take, List.length_map, List.length_dropLast,
    List.length_cons] at lengths
  omega

/-- **Splitting undoes joining exactly for `join_data`.** -/
theorem roundTrips_iff (join : Join) (separable : join.Separable) :
    join.RoundTrips ↔ join.IsData := by
  cases join with
  | data a b splitChar =>
    obtain ⟨notNul, aClean, bClean⟩ := separable
    refine ⟨fun _ => trivial, fun _ => ?_⟩
    have noNul : (0 : Byte) ∉ terminate splitChar [a.bytes, b.bytes] := by
      simp [a.noNul, b.noNul, Ne.symm notNul]
    refine ⟨⟨_, noNul⟩, joinData_text a b notNul, map_bytes_injective ?_⟩
    exact splitMsg_joinData aClean bClean rfl _
  | addresses addr others =>
    exact ⟨fun roundTrips => absurd roundTrips (not_roundTrips_addresses separable.2),
      fun isData => absurd isData id⟩

/-- Two strings joined by a comma come back. -/
theorem roundTrips_iff_sample :
    (Join.data ⟨ascii "30203032023", by decide⟩ ⟨ascii "3040320", by decide⟩ 44).RoundTrips :=
  (roundTrips_iff (Join.data ⟨ascii "30203032023", by decide⟩ ⟨ascii "3040320", by decide⟩ 44)
    (by decide)).mpr trivial

/-- Two addresses. -/
def twoAddresses : Join :=
  .addresses ⟨ascii "127.0.0.1", by decide⟩ [⟨ascii "192.168.0.1", by decide⟩]

/-- **The second of two addresses is lost.** -/
theorem lastAddress_dropped :
    twoAddresses.Separable ∧
      twoAddresses.joined.cString? = some (ascii "127.0.0.1;192.168.0.1") ∧
      splitMsg ⟨ascii "127.0.0.1;192.168.0.1", by decide⟩ splitAddrChar 21 =
        [⟨ascii "127.0.0.1", by decide⟩] ∧
      ¬ twoAddresses.RoundTrips := by
  have separable : twoAddresses.Separable := by decide
  refine ⟨separable, by decide, by decide, ?_⟩
  exact not_roundTrips_addresses separable.2

end Bacteria.Net
