/-
**Packing and unpacking as inverses.**

* `Splitters` — the two splitter bytes a caller may pass: distinct, and no NUL.
* `UnpacksTo pairs kept` — packing `pairs` and unpacking the written text gives `kept`, last pair
  first, and sets `*rt_size` to twice their number.
* `unpackData_packData` — clean pairs come back, up to the splitter's cap of `max_splitted` fields.
* `Repacks` — packing what `unpackData` returned gives the message back.
* `Lossless` — the message ends with `ssplitter`, has at most `max_splitted` fields, and every field
  has an `fsplitter`.
* `unpackData_repacks_iff` — which messages are accepted, and that an accepted message repacks to
  itself exactly when it is lossless.
-/

import Bacteria.Lib.Decimal
import Bacteria.Net.PackData

namespace Bacteria.Net

open Clib

/-- The splitters of one call: `FSPLITTERCHAR` and `SPLITADDRCHAR` unless the caller passes others. -/
structure Splitters where
  fsplitter : Byte
  ssplitter : Byte
  fNonNul : fsplitter ≠ 0
  sNonNul : ssplitter ≠ 0
  distinct : fsplitter ≠ ssplitter

/-- `'='` and `';'`. -/
def Splitters.standard : Splitters := ⟨charByte '=', charByte ';', by decide, by decide, by decide⟩

/-- The strings of a list of pairs in `rVal`'s order. -/
def pairStrings (pairs : List (CString × CString)) : List (Option Bytes) :=
  pairs.flatMap fun pair => [some pair.1.bytes, some pair.2.bytes]

/-- No key and no value holds one of the splitters. -/
def Splitters.Clean (s : Splitters) (pairs : List (CString × CString)) : Prop :=
  ∀ pair ∈ pairs, (s.fsplitter ∉ pair.1.bytes ∧ s.ssplitter ∉ pair.1.bytes) ∧
    s.fsplitter ∉ pair.2.bytes ∧ s.ssplitter ∉ pair.2.bytes

/-- Packing `pairs` and unpacking the written text gives `kept`. -/
def UnpacksTo (s : Splitters) (pairs kept : List (CString × CString)) : Prop :=
  ∃ packed unpacked,
    packData (pairs.map Prod.fst) (pairs.map Prod.snd) s.fsplitter s.ssplitter = some packed ∧
    unpackData (cstr packed.text) s.fsplitter s.ssplitter = some unpacked ∧
    unpacked.strings = pairStrings kept.reverse ∧ unpacked.rtSize = 2 * kept.length

section Records

variable {s : Splitters}

/-! ### Records -/

theorem record_fieldStrings {pair : CString × CString} (clean : s.fsplitter ∉ pair.1.bytes) :
    fieldStrings s.fsplitter (record s.fsplitter pair) =
      [some pair.1.bytes, some pair.2.bytes] := by
  rw [fieldStrings, record, cut_append clean]

/-- The strings of clean records are their keys and values. -/
theorem records_fieldStrings {pairs : List (CString × CString)}
    (clean : ∀ pair ∈ pairs, s.fsplitter ∉ pair.1.bytes) :
    (pairs.map (record s.fsplitter)).flatMap (fieldStrings s.fsplitter) = pairStrings pairs := by
  rw [List.flatMap_map]
  exact List.flatMap_congr fun pair member => record_fieldStrings (clean pair member)

theorem record_noNul (pair : CString × CString) : (0 : Byte) ∉ record s.fsplitter pair := by
  simp only [record, List.mem_append, List.mem_cons, not_or]
  exact ⟨pair.1.noNul, s.fNonNul.symm, pair.2.noNul⟩

theorem terminate_noNul {texts : List Bytes} (clean : ∀ text ∈ texts, (0 : Byte) ∉ text) :
    (0 : Byte) ∉ terminate s.ssplitter texts := by
  simp only [terminate, List.mem_flatMap, List.mem_append, List.mem_singleton, not_exists, not_and,
    not_or]
  exact fun text member => ⟨clean text member, s.sNonNul.symm⟩

/-- A record holds one `fsplitter`. -/
theorem count_record {pair : CString × CString} (key : s.fsplitter ∉ pair.1.bytes)
    (value : s.fsplitter ∉ pair.2.bytes) :
    (record s.fsplitter pair).count s.fsplitter = 1 := by
  rw [record, List.count_append, List.count_cons_self, List.count_eq_zero.mpr key,
    List.count_eq_zero.mpr value]

/-- A text of clean records holds as many `fsplitter`s as records. -/
theorem count_records {pairs : List (CString × CString)} (clean : s.Clean pairs) :
    (terminate s.ssplitter (pairs.map (record s.fsplitter))).count s.fsplitter = pairs.length := by
  induction pairs with
  | nil => rfl
  | cons pair pairs ih =>
    have here := clean pair List.mem_cons_self
    have rest : s.Clean pairs := fun other member => clean other (List.mem_cons_of_mem _ member)
    rw [List.map_cons, terminate_cons, List.count_append, count_record here.1.1 here.2.1,
      List.count_cons_of_ne s.distinct.symm, ih rest, List.length_cons, Nat.add_comm]

theorem record_avoid {pairs : List (CString × CString)} (clean : s.Clean pairs) :
    ∀ text ∈ pairs.map (record s.fsplitter), s.ssplitter ∉ text := by
  intro text member
  obtain ⟨pair, inPairs, rfl⟩ := List.mem_map.mp member
  obtain ⟨⟨_, key⟩, _, value⟩ := clean pair inPairs
  simp only [record, List.mem_append, List.mem_cons, not_or]
  exact ⟨key, s.distinct.symm, value⟩

end Records

/-! ### From pairs to the message and back -/

/-- **Clean pairs survive packing and unpacking**, the first `max_splitted` of them. -/
theorem unpackData_packData (s : Splitters) (pairs : List (CString × CString))
    (nonempty : pairs ≠ []) (clean : s.Clean pairs) :
    UnpacksTo s pairs (pairs.take maxSplitted) := by
  obtain ⟨packed, packs, text⟩ := packData_text pairs nonempty s.fsplitter s.ssplitter
  have noNul : (0 : Byte) ∉ packed.text := by
    rw [text]
    refine terminate_noNul fun piece member => ?_
    obtain ⟨pair, _, rfl⟩ := List.mem_map.mp member
    exact record_noNul pair
  have message : (cstr packed.text).bytes =
      terminate s.ssplitter (pairs.map (record s.fsplitter)) := by
    rw [(cstr_eq_iff packed.text).mpr noNul, text]
  have balanced : (cstr packed.text).bytes.count s.ssplitter =
      (cstr packed.text).bytes.count s.fsplitter := by
    rw [message, count_terminate _ (record_avoid clean), count_records clean, List.length_map]
  have split : (pieces s.ssplitter (cstr packed.text).bytes).take maxSplitted =
      (pairs.take maxSplitted).map (record s.fsplitter) := by
    rw [← splitMsg_bytes _ s.ssplitter 0, splitMsg_terminate (record_avoid clean) message,
      List.map_take]
  refine ⟨packed, accepted (cstr packed.text) s.fsplitter s.ssplitter, packs, ?_, ?_, ?_⟩
  · rw [unpackData_eq s.distinct, if_pos balanced]
  · rw [accepted_strings, split, ← List.map_reverse]
    refine records_fieldStrings fun pair member => ?_
    exact (clean pair (List.mem_of_mem_take (List.mem_reverse.mp member))).1.1
  · rw [accepted_rtSize, split, List.length_map]

/-- Three clean pairs, an empty key and an empty value among them. -/
theorem unpackData_packData_sample :
    UnpacksTo .standard
      [(cstr (ascii "key"), cstr (ascii "value")), (cstr [], cstr (ascii "1")),
        (cstr (ascii "s03"), cstr [])]
      ([(cstr (ascii "key"), cstr (ascii "value")), (cstr [], cstr (ascii "1")),
        (cstr (ascii "s03"), cstr [])].take maxSplitted) :=
  unpackData_packData .standard _ (by decide) (by unfold Splitters.Clean; decide)

/-- A result never has more than `max_splitted` pairs. -/
theorem rtSize_le {s : Splitters} {data : CString} {unpacked : Unpacked}
    (found : unpackData data s.fsplitter s.ssplitter = some unpacked) :
    unpacked.rtSize ≤ 2 * maxSplitted := by
  rw [unpackData_eq s.distinct] at found
  split at found
  · obtain rfl := Option.some.inj found
    rw [accepted_rtSize]
    exact Nat.mul_le_mul_left 2 (List.length_take_le _ _)
  · cases found

/-- One pair more than the cap, all keys and values empty. -/
def tooManyPairs : List (CString × CString) := List.replicate (maxSplitted + 1) (cstr [], cstr [])

/-- **The cap loses a pair**: 121 clean pairs do not come back. -/
theorem tooManyPairs_cut :
    tooManyPairs ≠ [] ∧ Splitters.standard.Clean tooManyPairs ∧
      ¬ UnpacksTo .standard tooManyPairs tooManyPairs := by
  refine ⟨by simp [tooManyPairs], ?_, ?_⟩
  · intro pair member
    obtain rfl := List.eq_of_mem_replicate member
    decide
  · rintro ⟨packed, unpacked, _, found, _, size⟩
    have bound := rtSize_le found
    rw [size, tooManyPairs, List.length_replicate] at bound
    omega

/-! ### From a message to pairs and back -/

section Repacks

/-- Packing the returned pairs, last one first, gives the message back. -/
def Repacks (s : Splitters) (data : CString) (unpacked : Unpacked) : Prop :=
  ∃ pairs packed, unpacked.strings = pairStrings pairs ∧
    packData (pairs.reverse.map Prod.fst) (pairs.reverse.map Prod.snd) s.fsplitter s.ssplitter =
      some packed ∧
    packed.text = data.bytes

/-- The message ends with `ssplitter`, has no more fields than the splitter returns, and every field
has a key. -/
def Lossless (s : Splitters) (data : CString) : Prop :=
  data.bytes.getLast? = some s.ssplitter ∧ data.bytes.count s.ssplitter ≤ maxSplitted ∧
    ∀ field ∈ fields s.ssplitter data.bytes, s.fsplitter ∈ field

variable {s : Splitters}

/-- Fields whose strings are those of some pairs are the records of these pairs. -/
theorem eq_records_of_strings {texts : List Bytes} {pairs : List (CString × CString)}
    (same : texts.flatMap (fieldStrings s.fsplitter) = pairStrings pairs) :
    texts = pairs.map (record s.fsplitter) := by
  induction texts generalizing pairs with
  | nil =>
    cases pairs with
    | nil => rfl
    | cons pair pairs => simp [pairStrings] at same
  | cons text texts ih =>
    rw [List.flatMap_cons] at same
    cases found : cut s.fsplitter text with
    | none =>
      cases pairs with
      | nil => simp [fieldStrings, found, pairStrings] at same
      | cons pair pairs => simp [fieldStrings, found, pairStrings] at same
    | some parts =>
      obtain ⟨key, value⟩ := parts
      obtain ⟨_, rfl⟩ := cut_eq_some.mp found
      cases pairs with
      | nil => simp [fieldStrings, found, pairStrings] at same
      | cons pair pairs =>
        simp only [fieldStrings, found, pairStrings, List.flatMap_cons, List.cons_append,
          List.nil_append, List.cons.injEq, Option.some.injEq] at same
        obtain ⟨rfl, rfl, rest⟩ := same
        rw [List.map_cons, ← ih rest]
        rfl

/-- Fields with an `fsplitter` are records. -/
theorem exists_records {texts : List Bytes}
    (keyed : ∀ text ∈ texts, s.fsplitter ∈ text) (clean : ∀ text ∈ texts, (0 : Byte) ∉ text) :
    ∃ pairs, texts = pairs.map (record s.fsplitter) ∧
      texts.flatMap (fieldStrings s.fsplitter) = pairStrings pairs := by
  induction texts with
  | nil => exact ⟨[], rfl, rfl⟩
  | cons text texts ih =>
    obtain ⟨pairs, shape, strings⟩ := ih
      (fun other member => keyed other (List.mem_cons_of_mem _ member))
      fun other member => clean other (List.mem_cons_of_mem _ member)
    obtain ⟨key, value, rfl, keyClean⟩ :=
      List.eq_append_cons_of_mem (keyed text List.mem_cons_self)
    have noNul := clean _ List.mem_cons_self
    rw [List.mem_append, List.mem_cons, not_or, not_or] at noNul
    refine ⟨(⟨key, noNul.1⟩, ⟨value, noNul.2.2⟩) :: pairs, ?_, ?_⟩
    · rw [List.map_cons, ← shape]
      rfl
    · rw [List.flatMap_cons, strings, fieldStrings, cut_append keyClean]
      rfl

/-- The pieces of a text hold no `schar`. -/
theorem pieces_avoid (schar : Byte) (buf : Bytes) : ∀ piece ∈ pieces schar buf, schar ∉ piece := by
  intro piece member
  rcases List.mem_append.mp member with inFields | inRemnant
  · exact fields_avoid schar buf piece inFields
  · exact fun inside => remnant_avoid schar buf (fields_subset inRemnant inside)

theorem terminate_getLast? {c : Byte} {texts : List Bytes} (nonempty : texts ≠ []) :
    (terminate c texts).getLast? = some c := by
  obtain ⟨front, last, rfl⟩ := List.eq_nil_or_concat texts |>.resolve_left nonempty
  rw [List.concat_eq_append, terminate_append, terminate_cons, terminate_nil, ← List.append_assoc,
    List.getLast?_concat]

/-- A text that ends with the terminator is its terminated fields. -/
theorem remnant_eq_nil {c : Byte} {text : Bytes} (ends : text.getLast? = some c) :
    remnant c text = [] := by
  by_contra nonempty
  have last : text.getLast? = (remnant c text).getLast? := by
    conv_lhs => rw [← terminate_fields c text]
    exact List.getLast?_append_of_ne_nil _ nonempty
  rw [ends] at last
  exact remnant_avoid c text (List.mem_of_getLast? last.symm)

/-- **An accepted message repacks to itself exactly when it is lossless.** -/
theorem accepted_repacks_iff {data : CString} (nonempty : data.bytes ≠ []) :
    Repacks s data (accepted data s.fsplitter s.ssplitter) ↔ Lossless s data := by
  constructor
  · rintro ⟨pairs, packed, strings, packs, text⟩
    rw [accepted_strings] at strings
    have records : (pieces s.ssplitter data.bytes).take maxSplitted =
        pairs.reverse.map (record s.fsplitter) := by
      rw [List.map_reverse, ← eq_records_of_strings strings, List.reverse_reverse]
    have some : pairs.reverse ≠ [] := by
      rintro none
      rw [none] at packs
      cases packs
    obtain ⟨_, packs', text'⟩ := packData_text pairs.reverse some s.fsplitter s.ssplitter
    obtain rfl := Option.some.inj (packs.symm.trans packs')
    have message : data.bytes = terminate s.ssplitter (pairs.reverse.map (record s.fsplitter)) := by
      rw [← text, text']
    have avoid : ∀ piece ∈ pairs.reverse.map (record s.fsplitter), s.ssplitter ∉ piece := by
      rw [← records]
      exact fun piece member => pieces_avoid _ _ piece (List.mem_of_mem_take member)
    have whole : fields s.ssplitter data.bytes = pairs.reverse.map (record s.fsplitter) := by
      rw [message, ← List.append_nil (terminate _ _), fields_terminate avoid List.not_mem_nil]
    refine ⟨?_, ?_, ?_⟩
    · rw [message]
      exact terminate_getLast? (by simpa using some)
    · rw [count_eq_length_fields, whole, ← records]
      exact List.length_take_le _ _
    · rw [whole]
      intro field member
      obtain ⟨pair, _, rfl⟩ := List.mem_map.mp member
      simp [record]
  · rintro ⟨ends, few, keyed⟩
    have noRemnant := remnant_eq_nil ends
    have message := terminate_fields s.ssplitter data.bytes
    rw [noRemnant, List.append_nil] at message
    have split : (pieces s.ssplitter data.bytes).take maxSplitted =
        fields s.ssplitter data.bytes := by
      rw [pieces, noRemnant, fields_clean List.not_mem_nil, List.append_nil]
      exact List.take_of_length_le (by rwa [← count_eq_length_fields])
    have keys : ∀ field ∈ (fields s.ssplitter data.bytes).reverse, s.fsplitter ∈ field :=
      fun field member => keyed field (List.mem_reverse.mp member)
    have noNul : ∀ field ∈ (fields s.ssplitter data.bytes).reverse, (0 : Byte) ∉ field :=
      fun field member nul => data.noNul (fields_subset (List.mem_reverse.mp member) nul)
    obtain ⟨pairs, shape, strings⟩ := exists_records keys noNul
    have records : pairs.reverse.map (record s.fsplitter) = fields s.ssplitter data.bytes := by
      rw [List.map_reverse, ← shape, List.reverse_reverse]
    have some : pairs.reverse ≠ [] := by
      rintro none
      rw [none, List.map_nil] at records
      rw [← records, terminate_nil] at message
      exact nonempty message.symm
    obtain ⟨packed, packs, text⟩ := packData_text pairs.reverse some s.fsplitter s.ssplitter
    refine ⟨pairs, packed, ?_, packs, ?_⟩
    · rw [accepted_strings, split, strings]
    · rw [text, records, message]

/-- **What `unpackData` accepts, and what it keeps of it.** A message is accepted when its splitters
are equally many; what comes back repacks to the message exactly when it is lossless. -/
theorem unpackData_repacks_iff (s : Splitters) (data : CString) (nonempty : data.bytes ≠ []) :
    ((unpackData data s.fsplitter s.ssplitter).isSome ↔
      data.bytes.count s.ssplitter = data.bytes.count s.fsplitter) ∧
    ∀ unpacked, unpackData data s.fsplitter s.ssplitter = some unpacked →
      (Repacks s data unpacked ↔ Lossless s data) := by
  rw [unpackData_eq s.distinct]
  by_cases balanced : data.bytes.count s.ssplitter = data.bytes.count s.fsplitter
  · rw [if_pos balanced]
    refine ⟨by simp [balanced], fun unpacked found => ?_⟩
    obtain rfl := Option.some.inj found
    exact accepted_repacks_iff nonempty
  · rw [if_neg balanced]
    exact ⟨by simp [balanced], fun unpacked found => by cases found⟩

theorem unpackData_repacks_iff_sample :
    ((unpackData (cstr (ascii "a=b;c=;")) Splitters.standard.fsplitter
        Splitters.standard.ssplitter).isSome ↔
      (cstr (ascii "a=b;c=;")).bytes.count Splitters.standard.ssplitter =
        (cstr (ascii "a=b;c=;")).bytes.count Splitters.standard.fsplitter) ∧
    ∀ unpacked, unpackData (cstr (ascii "a=b;c=;")) Splitters.standard.fsplitter
        Splitters.standard.ssplitter = some unpacked →
      (Repacks .standard (cstr (ascii "a=b;c=;")) unpacked ↔
        Lossless .standard (cstr (ascii "a=b;c=;"))) :=
  unpackData_repacks_iff .standard _ (by decide)

/-- **Text after the last `;` is dropped**: `a=b;c` is accepted and does not repack to itself. -/
theorem trailing_text_dropped :
    ∃ unpacked, unpackData (cstr (ascii "a=b;c")) Splitters.standard.fsplitter
        Splitters.standard.ssplitter = some unpacked ∧
      ¬ Repacks .standard (cstr (ascii "a=b;c")) unpacked := by
  refine ⟨accepted (cstr (ascii "a=b;c")) Splitters.standard.fsplitter
    Splitters.standard.ssplitter, ?_, ?_⟩
  · rw [unpackData_eq Splitters.standard.distinct, if_pos (by decide)]
  · rw [accepted_repacks_iff (by decide)]
    rintro ⟨ends, _⟩
    exact absurd ends (by decide)

end Repacks

end Bacteria.Net
