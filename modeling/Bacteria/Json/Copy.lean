/-
**What is encoded comes back.**

* `NumberLaws` — what the C library's number texts are taken to be.
* `Copies` — a decoded value is a deep copy of another one: tables with copies of their values under the
  same keys, numbers as they are read back from their texts.
* `exists_quoted` — every string has a text in the grammar, the one `encode_string` writes.
* `encode_printable` — no text has a control character.
* `itemsOf`, `membersOf` — the documents that the encoder writes, without white space.
* `copies_table_iff` — when values under keys are the copy of a table; `HoleFree`, `holeFree_iff` — arrays
  without a hole below `#`, where `ipairs` gets to every key.
* `Whole` — no table on the way is an array with a hole; `encode_denotes` — the text of a value is the text
  of a document, and its value is a copy exactly if the value is whole.
* `decodeText_encode` — `json.decode` of what `json.encode` returned.
-/

import Bacteria.Json.Cycles
import Bacteria.Json.Read
import Mathlib.Data.List.Perm.Subperm

namespace Bacteria.Json

open Clib EncDec Loops Lua

section Copying

variable {ν : Type} [DecidableEq ν] (num : Numerals ν) (finite : ν → Bool) (heap : Heap ν)

/-- The texts of `%.14g`, and how `tonumber` reads them. -/
structure NumberLaws : Prop where
  first : ∀ n, finite n = true →
    ∃ c rest, num.number2str n = c :: rest ∧ c ∈ ascii "0123456789-"
  clean : ∀ n, finite n = true → ∀ b ∈ num.number2str n, b ∉ delimChars
  printable : ∀ n, finite n = true → ∀ b ∈ num.number2str n, 32 ≤ b.toNat
  reads : ∀ n, finite n = true → (num.str2number (num.number2str n)).isSome
  exact : ∀ i j : Nat, i ≤ exactIntegers → j ≤ exactIntegers → num.ofInt i = num.ofInt j → i = j

/-- **A deep copy.** -/
inductive Copies : Value ν → Tree ν → Prop where
  | nil : Copies .nil .nil
  | boolean (b : Bool) : Copies (.boolean b) (.boolean b)
  | string (text : Bytes) : Copies (.string text) (.string text)
  | number (n m : ν) (reads : num.str2number (num.number2str n) = some m) :
      Copies (.number n) (.number m)
  | table (identity : Nat) (entries : List (Entry ν)) (fields : Value ν → Tree ν)
      (known : heap.tables identity = some entries)
      (values : ∀ key, Copies (field entries key) (fields key)) :
      Copies (.object identity) (.table fields)

end Copying

/-! ### Strings -/

section Quoting

/-- The control characters as four digits. -/
theorem lowerHex4_spec : ∀ n < 32, (lowerHex4 n).length = 4 ∧
    (∀ b ∈ lowerHex4 n, isXDigit b = true) ∧ (lowerHex4 n).head? = some 48 ∧
    codepointToUtf8 (hexNumber (lowerHex4 n)) = .returned [UInt8.ofNat n] := by decide

theorem escapeCharMap_spec : ∀ pair ∈ escapeCharMap,
    pair.2 ∈ escapeChars ∧ escapeCharMapInv.lookup pair.2 = some pair.1 := by decide

theorem mem_of_lookup {α β : Type} [BEq α] [LawfulBEq α] {pairs : List (α × β)} {a : α} {b : β}
    (found : pairs.lookup a = some b) : (a, b) ∈ pairs := by
  induction pairs with
  | nil => cases found
  | cons pair pairs ih =>
    obtain ⟨c, d⟩ := pair
    rw [List.lookup_cons] at found
    split at found
    · next same =>
      rw [← Option.some.inj found, eq_of_beq same]
      exact List.mem_cons_self
    · exact List.mem_cons_of_mem _ (ih found)

/-- **Every byte can be written** as a character of a string, and never as the first half of a pair. -/
theorem exists_piece (c : Byte) :
    ∃ piece : Piece, piece.text = (if needsEscape c then escapeChar c else [c]) ∧ piece.bytes = [c] ∧
      ∀ pieces, piece.Apart pieces := by
  cases escape : needsEscape c with
  | false =>
    simp only [needsEscape, Bool.or_eq_false_iff, decide_eq_false_iff_not, beq_eq_false_iff_ne,
      Nat.not_lt] at escape
    exact ⟨.plain c ⟨escape.1.1, escape.2, escape.1.2⟩, rfl, rfl, fun _ => trivial⟩
  | true =>
    cases found : escapeCharMap.lookup c with
    | some letter =>
      obtain ⟨known, stands⟩ := escapeCharMap_spec _ (mem_of_lookup found)
      refine ⟨.short letter c known stands, ?_, rfl, fun _ => trivial⟩
      simp only [if_true, Piece.text, escapeChar, found]
    | none =>
      have control : c.toNat < 32 := by
        simp only [needsEscape, Bool.or_eq_true, decide_eq_true_eq, beq_iff_eq] at escape
        rcases escape with (control | rfl) | rfl
        · exact control
        · cases found
        · cases found
      obtain ⟨size, digits, head, stands⟩ := lowerHex4_spec c.toNat control
      rw [UInt8.ofNat_toNat] at stands
      refine ⟨.unicode (lowerHex4 c.toNat) [c] ⟨size, digits⟩ stands, ?_, rfl, fun pieces => ?_⟩
      · simp only [if_true, Piece.text, escapeChar, found]
      · cases pieces with
        | nil => trivial
        | cons next pieces =>
          rintro ⟨d, second, rest, shape, isD, _⟩
          rw [shape] at head
          obtain rfl := Option.some.inj head
          exact absurd isD (by decide)

/-- **Every string is written as `encode_string` writes it.** -/
theorem exists_quoted (val : Bytes) :
    ∃ s : StringText, s.text = encodeString val ∧ s.bytes = val := by
  have pieces : ∃ pieces : List Piece, Separate pieces ∧ pieces.flatMap Piece.text =
      (val.flatMap fun c => if needsEscape c then escapeChar c else [c]) ∧
      pieces.flatMap Piece.bytes = val := by
    induction val with
    | nil => exact ⟨[], trivial, rfl, rfl⟩
    | cons c val ih =>
      obtain ⟨pieces, separate, text, bytes⟩ := ih
      obtain ⟨piece, textHere, bytesHere, apart⟩ := exists_piece c
      refine ⟨piece :: pieces, ⟨apart pieces, separate⟩, ?_, ?_⟩
      · rw [List.flatMap_cons, List.flatMap_cons, textHere, text]
      · rw [List.flatMap_cons, bytesHere, bytes, List.singleton_append]
  obtain ⟨pieces, separate, text, bytes⟩ := pieces
  refine ⟨⟨pieces, separate⟩, ?_, bytes⟩
  rw [StringText.text, text, encodeString]
  rfl

end Quoting

/-! ### Control characters -/

section Printable

variable {ν : Type} [DecidableEq ν] {num : Numerals ν} {finite : ν → Bool}
  {objectType : Nat → Bytes} {heap : Heap ν}

/-- A string is written without control characters. -/
theorem encodeString_printable (val : Bytes) : ∀ b ∈ encodeString val, 32 ≤ b.toNat := by
  have short : ∀ pair ∈ escapeCharMap, 32 ≤ pair.2.toNat := by decide
  have digits : ∀ n < 32, ∀ b ∈ lowerHex4 n, 32 ≤ b.toNat := by decide
  have escaped : ∀ c b, b ∈ (if needsEscape c then escapeChar c else [c]) → 32 ≤ b.toNat := by
    intro c b member
    cases escape : needsEscape c with
    | false =>
      simp only [escape, Bool.false_eq_true, if_false, List.mem_singleton] at member
      simp only [needsEscape, Bool.or_eq_false_iff, decide_eq_false_iff_not, Nat.not_lt] at escape
      exact member ▸ escape.1.1
    | true =>
      simp only [escape, if_true, escapeChar, List.mem_cons] at member
      rcases member with rfl | member
      · decide
      cases found : escapeCharMap.lookup c with
      | some letter =>
        rw [found, List.mem_singleton] at member
        exact member ▸ short _ (mem_of_lookup found)
      | none =>
        rw [found] at member
        simp only [needsEscape, Bool.or_eq_true, decide_eq_true_eq, beq_iff_eq] at escape
        rcases escape with (control | rfl) | rfl
        · rcases List.mem_cons.mp member with rfl | digit
          · decide
          · exact digits c.toNat control b digit
        · cases found
        · cases found
  intro b member
  rw [encodeString, List.cons_append, List.mem_cons, List.mem_append, List.mem_singleton] at member
  rcases member with rfl | inside | rfl
  · decide
  · obtain ⟨c, _, here⟩ := List.mem_flatMap.mp inside
    exact escaped c b here
  · decide

/-- Parts without control characters between commas. -/
theorem intercalate_printable {parts : List Bytes} (each : ∀ part ∈ parts, ∀ b ∈ part, 32 ≤ b.toNat) :
    ∀ b ∈ List.intercalate [charByte ','] parts, 32 ≤ b.toNat := by
  induction parts with
  | nil => exact fun b member => by cases member
  | cons part parts ih =>
    have first := each part List.mem_cons_self
    have rest := ih fun other inside => each other (List.mem_cons_of_mem _ inside)
    cases parts with
    | nil => simpa [List.intercalate] using first
    | cons next parts =>
      intro b member
      have shape : List.intercalate [charByte ','] (part :: next :: parts) =
          part ++ charByte ',' :: List.intercalate [charByte ','] (next :: parts) := by
        simp [List.intercalate]
      rw [shape, List.mem_append, List.mem_cons] at member
      rcases member with here | rfl | there
      · exact first b here
      · decide
      · exact rest b there

/-- Printable parts between brackets. -/
theorem bracketed_printable {parts : List Bytes} {left right : Byte}
    (brackets : 32 ≤ left.toNat ∧ 32 ≤ right.toNat) (each : ∀ part ∈ parts, ∀ b ∈ part, 32 ≤ b.toNat) :
    ∀ b ∈ left :: List.intercalate [charByte ','] parts ++ [right], 32 ≤ b.toNat := by
  intro b member
  rw [List.cons_append, List.mem_cons, List.mem_append, List.mem_singleton] at member
  rcases member with rfl | inside | rfl
  · exact brackets.1
  · exact intercalate_printable each b inside
  · exact brackets.2

/-- **No text has a control character**, so no text has a NUL. -/
theorem encode_printable (laws : NumberLaws num finite) {fuel : Nat} {stack : List Nat} {v : Value ν}
    {text : Bytes} (returned : encode num finite objectType heap fuel stack v = .returned text) :
    ∀ b ∈ text, 32 ≤ b.toNat := by
  induction fuel generalizing stack v text with
  | zero => cases returned
  | succ fuel ih =>
    cases v with
    | nil =>
      obtain rfl := Attempt.returned.inj returned
      decide
    | boolean b =>
      obtain rfl := Attempt.returned.inj returned
      cases b <;> decide
    | string val =>
      obtain rfl := Attempt.returned.inj returned
      exact encodeString_printable val
    | number n =>
      rw [encode, encodeNumber] at returned
      split at returned
      · next isFinite =>
        obtain rfl := Attempt.returned.inj returned
        exact laws.printable n isFinite
      · cases returned
    | object identity =>
      obtain ⟨entries, _, _, _, shape⟩ := encode_object_returned returned
      rcases shape with ⟨_, res, all, rfl⟩ | ⟨_, res, all, rfl⟩
      · refine bracketed_printable ⟨by decide, by decide⟩ fun part member => ?_
        obtain ⟨i, inside, rfl⟩ := List.getElem_of_mem member
        exact ih (all.get (all.length_eq ▸ inside) inside)
      · refine bracketed_printable ⟨by decide, by decide⟩ fun part member b here => ?_
        obtain ⟨i, inside, rfl⟩ := List.getElem_of_mem member
        obtain ⟨k, v, _, value, shape⟩ := all.get (all.length_eq ▸ inside) inside
        rw [List.get_eq_getElem] at shape
        rw [shape, List.mem_append, List.mem_cons] at here
        rcases here with inKey | rfl | inValue
        · exact encodeString_printable k b inKey
        · decide
        · exact ih value b inValue

end Printable

/-! ### Documents without white space -/

section Written

variable {ν : Type} {num : Numerals ν}

/-- The items of an array, as the encoder writes them. -/
def itemsOf : List (Doc num) → Items num
  | [] => .close noBlank
  | [doc] => .last noBlank doc noBlank
  | doc :: next :: docs => .more noBlank doc noBlank (itemsOf (next :: docs))

/-- The members of an object, as the encoder writes them. -/
def membersOf : List (StringText × Doc num) → Members num
  | [] => .close noBlank
  | [member] => .last noBlank member.1 noBlank noBlank member.2 noBlank
  | member :: next :: members =>
    .more noBlank member.1 noBlank noBlank member.2 noBlank (membersOf (next :: members))

/-- How the encoder writes a member. -/
def memberText (member : StringText × Doc num) : Bytes :=
  member.1.text ++ charByte ':' :: member.2.text

theorem itemsOf_text (docs : List (Doc num)) :
    (itemsOf docs).text = List.intercalate [charByte ','] (docs.map Doc.text) ++ [charByte ']'] := by
  induction docs with
  | nil => rfl
  | cons doc docs ih =>
    cases docs with
    | nil => simp [itemsOf, Items.text, noBlank, List.intercalate]
    | cons next docs =>
      rw [itemsOf, Items.text, ih]
      simp [noBlank, List.intercalate]

theorem membersOf_text (members : List (StringText × Doc num)) :
    (membersOf members).text =
      List.intercalate [charByte ','] (members.map memberText) ++ [charByte '}'] := by
  induction members with
  | nil => rfl
  | cons member members ih =>
    cases members with
    | nil => simp [membersOf, Members.text, keyText, memberText, noBlank, List.intercalate]
    | cons next members =>
      rw [membersOf, Members.text, ih]
      simp [noBlank, keyText, memberText, List.intercalate]

variable [DecidableEq ν]

/-- Values put under keys, one after the other. -/
def putAll (res : Value ν → Tree ν) (pairs : List (Value ν × Tree ν)) : Value ν → Tree ν :=
  pairs.foldl (fun res pair => Function.update res pair.1 pair.2) res

/-- The keys of an array. -/
def indexed (docs : List (Doc num)) (n : Nat) : List (Value ν × Tree ν) :=
  (docs.zipIdx n).map fun doc => (.number (num.ofInt doc.2), doc.1.value)

theorem itemsOf_fields (docs : List (Doc num)) (res : Value ν → Tree ν) (n : Nat) :
    (itemsOf docs).fields res n = putAll res (indexed docs n) := by
  induction docs generalizing res n with
  | nil => rfl
  | cons doc docs ih =>
    cases docs with
    | nil => rfl
    | cons next docs =>
      rw [itemsOf, Items.fields, ih]
      rfl

theorem membersOf_fields (members : List (StringText × Doc num)) (res : Value ν → Tree ν) :
    (membersOf members).fields res =
      putAll res (members.map fun member => (.string member.1.bytes, member.2.value)) := by
  induction members generalizing res with
  | nil => rfl
  | cons member members ih =>
    cases members with
    | nil => rfl
    | cons next members =>
      rw [membersOf, Members.fields, ih]
      rfl

theorem putAll_of_notMem {pairs : List (Value ν × Tree ν)} {res : Value ν → Tree ν} {key : Value ν}
    (other : key ∉ pairs.map Prod.fst) : putAll res pairs key = res key := by
  induction pairs generalizing res with
  | nil => rfl
  | cons pair pairs ih =>
    rw [List.map_cons, List.mem_cons, not_or] at other
    have later : putAll (Function.update res pair.1 pair.2) pairs key =
        Function.update res pair.1 pair.2 key := ih other.2
    rw [Function.update_of_ne other.1] at later
    exact later

/-- **Under different keys** nothing is overwritten. -/
theorem putAll_of_mem {pairs : List (Value ν × Tree ν)} {res : Value ν → Tree ν}
    (different : (pairs.map Prod.fst).Nodup) {pair : Value ν × Tree ν} (member : pair ∈ pairs) :
    putAll res pairs pair.1 = pair.2 := by
  induction pairs generalizing res with
  | nil => cases member
  | cons first pairs ih =>
    rw [List.map_cons, List.nodup_cons] at different
    rcases List.mem_cons.mp member with rfl | later
    · have kept : putAll (Function.update res pair.1 pair.2) pairs pair.1 =
          Function.update res pair.1 pair.2 pair.1 := putAll_of_notMem different.1
      rw [Function.update_self] at kept
      exact kept
    · exact ih different.2 later

end Written

/-! ### Copies of tables -/

section Tables

variable {ν : Type} [DecidableEq ν] {num : Numerals ν} {finite : ν → Bool} {heap : Heap ν}
  {entries : List (Entry ν)}

theorem field_of_mem (distinct : (entries.map Prod.fst).Nodup) {entry : Entry ν}
    (member : entry ∈ entries) : field entries entry.1 = entry.2 := by
  have found : entries.find? (fun other => other.1 = entry.1) = some entry := by
    cases result : entries.find? fun other => other.1 = entry.1 with
    | none => exact absurd (decide_eq_true rfl) (List.find?_eq_none.mp result entry member)
    | some other =>
      have same : other.1 = entry.1 := by simpa using List.find?_some result
      rw [List.inj_on_of_nodup_map distinct (List.mem_of_find?_eq_some result) member same]
  rw [field, found]
  rfl

theorem field_of_notMem {key : Value ν} (other : key ∉ entries.map Prod.fst) :
    field entries key = .nil := by
  have none : entries.find? (fun entry => entry.1 = key) = none := by
    rw [List.find?_eq_none]
    intro entry member
    rw [decide_eq_true_iff]
    rintro rfl
    exact other (List.mem_map_of_mem member)
  rw [field, none]
  rfl

theorem eq_nil_of_copies {v : Value ν} (copies : Copies num heap v .nil) : v = .nil := by
  cases copies
  rfl

/-- **When a table is copied** by values that are put under keys: all keys are there, and the values are
copies. -/
theorem copies_table_iff {identity : Nat} (known : heap.tables identity = some entries)
    {pairs : List (Value ν × Tree ν)} (different : (pairs.map Prod.fst).Nodup)
    {q : Value ν → Prop}
    (each : ∀ pair ∈ pairs, (Copies num heap (field entries pair.1) pair.2 ↔ q (field entries pair.1))) :
    Copies num heap (.object identity) (.table (putAll emptyFields pairs)) ↔
      entries.map Prod.fst ⊆ pairs.map Prod.fst ∧ ∀ pair ∈ pairs, q (field entries pair.1) := by
  constructor
  · intro copies
    cases copies with
    | table _ entries' _ known' values =>
      obtain rfl := Option.some.inj (known.symm.trans known')
      refine ⟨fun key isKey => ?_, fun pair member => (each pair member).mp ?_⟩
      · by_contra other
        obtain ⟨entry, member, rfl⟩ := List.mem_map.mp isKey
        have copy := values entry.1
        rw [putAll_of_notMem other, field_of_mem (heap.distinct identity entries known) member] at copy
        exact (heap.noNil identity entries known entry member).2 (eq_nil_of_copies copy)
      · have copy := values pair.1
        rwa [putAll_of_mem different member] at copy
  · rintro ⟨all, good⟩
    refine .table identity entries _ known fun key => ?_
    by_cases member : key ∈ pairs.map Prod.fst
    · obtain ⟨pair, here, rfl⟩ := List.mem_map.mp member
      rw [putAll_of_mem different here]
      exact (each pair here).mpr (good pair here)
    · rw [putAll_of_notMem member, field_of_notMem fun old => member (all old)]
      exact .nil

/-! ### Arrays -/

/-- **No hole** below `#`. -/
def HoleFree (num : Numerals ν) (heap : Heap ν) (identity : Nat) (entries : List (Entry ν)) : Prop :=
  takenForArray num entries = true → ∀ key ∈ indices num (heap.len identity), field entries key ≠ .nil

omit [DecidableEq ν] in
theorem indices_nodup (laws : NumberLaws num finite) {n : Nat} (short : n ≤ exactIntegers) :
    (indices num n).Nodup := by
  refine List.Nodup.map_on ?_ List.nodup_range
  intro i iInside j jInside same
  have iBelow := List.mem_range.mp iInside
  have jBelow := List.mem_range.mp jInside
  have equal := laws.exact (i + 1) (j + 1) (by omega) (by omega) (by simpa using same)
  omega

/-- `ipairs` visits a first part of the indices. -/
theorem ipairs_eq :
    ipairs num entries = (indices num (ipairs num entries).length).map (field entries) := by
  have first : ipairs num entries <+: (indices num entries.length).map (field entries) :=
    List.takeWhile_prefix _
  have upTo := List.prefix_iff_eq_take.mp first
  have inside : (ipairs num entries).length ≤ entries.length := by
    simpa [indices] using first.length_le
  rw [← List.map_take, indices, ← List.map_take, List.take_range, Nat.min_eq_left inside] at upTo
  exact upTo

/-- **The table has no hole** exactly if `ipairs` gets to all its keys. -/
theorem holeFree_iff (laws : NumberLaws num finite) {identity : Nat}
    (known : heap.tables identity = some entries) (taken : takenForArray num entries = true)
    (length : entries.length = heap.len identity) :
    HoleFree num heap identity entries ↔
      entries.map Prod.fst ⊆ indices num (ipairs num entries).length := by
  have short := heap.short identity entries known
  constructor
  · intro holeFree
    have values := holeFree taken
    rw [← length] at values
    have everything : ipairs num entries = (indices num entries.length).map (field entries) := by
      rw [ipairs, List.takeWhile_eq_self_iff]
      intro v member
      obtain ⟨key, isIndex, rfl⟩ := List.mem_map.mp member
      exact decide_eq_true (values key isIndex)
    have count : (ipairs num entries).length = entries.length := by
      rw [everything]
      simp [indices]
    have subset : indices num entries.length ⊆ entries.map Prod.fst := by
      intro key isIndex
      by_contra other
      exact values key isIndex (field_of_notMem other)
    have perm : (indices num entries.length).Perm (entries.map Prod.fst) :=
      (List.subperm_of_subset (indices_nodup laws short) subset).perm_of_length_le (by simp [indices])
    rw [count]
    exact perm.symm.subset
  · intro all _
    have many := (List.subperm_of_subset (heap.distinct identity entries known) all).length_le
    simp only [List.length_map, indices, List.length_range] at many
    rw [← length]
    intro key isIndex empty
    have size : ((indices num entries.length).map (field entries)).length ≤
        (ipairs num entries).length := by
      rwa [List.length_map, indices, List.length_map, List.length_range]
    have everything : ipairs num entries = (indices num entries.length).map (field entries) :=
      (List.takeWhile_prefix _).eq_of_length_le size
    have visited : field entries key ∈ ipairs num entries := by
      rw [everything]
      exact List.mem_map_of_mem isIndex
    have value := List.mem_takeWhile_imp visited
    rw [empty] at value
    simp at value

end Tables

/-! ### Documents for values -/

/-- A witness for every pair of two lists. -/
theorem exists_forall₂ {α β γ : Type} {r : α → β → Prop} {s : α → γ → Prop} {f : γ → β}
    (each : ∀ a b, r a b → ∃ c, f c = b ∧ s a c) {as : List α} {bs : List β}
    (all : List.Forall₂ r as bs) : ∃ cs : List γ, cs.map f = bs ∧ List.Forall₂ s as cs := by
  induction all with
  | nil => exact ⟨[], rfl, .nil⟩
  | cons one _ ih =>
    obtain ⟨c, rfl, here⟩ := each _ _ one
    obtain ⟨cs, rfl, rest⟩ := ih
    exact ⟨c :: cs, rfl, .cons here rest⟩

section Copied

variable {ν : Type} [DecidableEq ν] {num : Numerals ν} {finite : ν → Bool}
  {objectType : Nat → Bytes} {heap : Heap ν} {entries : List (Entry ν)} {v : Value ν}

/-- **No table has a hole** among those that are encoded for a value. -/
def Whole (num : Numerals ν) (heap : Heap ν) (v : Value ν) : Prop :=
  ∀ identity entries, Relation.ReflTransGen (Child num heap) v (.object identity) →
    heap.tables identity = some entries → HoleFree num heap identity entries

theorem whole_of_not_object (other : ∀ identity, v ≠ .object identity) : Whole num heap v := by
  intro identity entries path known
  rcases Relation.ReflTransGen.cases_head path with same | ⟨w, ⟨_, _, same, _⟩, _⟩
  · exact absurd same (other identity)
  · exact absurd same (other _)

theorem whole_object_iff {identity : Nat} (known : heap.tables identity = some entries) :
    Whole num heap (.object identity) ↔
      HoleFree num heap identity entries ∧ ∀ w ∈ children num entries, Whole num heap w := by
  constructor
  · intro whole
    refine ⟨whole identity entries .refl known, fun w member other others path => ?_⟩
    exact whole other others (.head ⟨identity, entries, rfl, known, member⟩ path)
  · rintro ⟨holeFree, below⟩ other others path knownThere
    rcases Relation.ReflTransGen.cases_head path with same | ⟨w, child, rest⟩
    · obtain rfl := Value.object.inj same
      obtain rfl := Option.some.inj (known.symm.trans knownThere)
      exact holeFree
    · obtain ⟨_, entries', same, known', member⟩ := child
      obtain rfl := Value.object.inj same
      obtain rfl := Option.some.inj (known.symm.trans known')
      exact below w member other others rest knownThere

/-- The keys that the items of an array are put under. -/
theorem indexed_keys (docs : List (Doc num)) :
    (indexed docs 1).map Prod.fst = indices num docs.length := by
  apply List.ext_getElem
  · simp [indexed, indices]
  · intro i inside _
    simp [indexed, indices, Int.add_comm]

/-- What holds of the items and their documents holds of what is put under the indices. -/
theorem forall_indexed {p : Value ν → Tree ν → Prop} {docs : List (Doc num)}
    (all : List.Forall₂ (fun v doc => p v doc.value) (ipairs num entries) docs) :
    ∀ pair ∈ indexed docs 1, p (field entries pair.1) pair.2 := by
  intro pair member
  obtain ⟨⟨doc, n⟩, isItem, rfl⟩ := List.mem_map.mp member
  obtain ⟨i, inside, same⟩ := List.getElem_of_mem isItem
  rw [List.length_zipIdx] at inside
  rw [List.getElem_zipIdx] at same
  obtain ⟨rfl, rfl⟩ := Prod.mk.inj same
  have visited : i < (ipairs num entries).length := all.length_eq ▸ inside
  have here := all.get visited inside
  have value : (ipairs num entries)[i] = field entries (.number (num.ofInt (i + 1))) := by
    rw [List.getElem_of_eq ipairs_eq visited]
    simp [indices]
  rw [List.get_eq_getElem, value] at here
  rw [Nat.cast_add, Nat.cast_one, Int.add_comm]
  exact here

/-- **The text of an array** gives a copy exactly if the array has no hole and its items are copied. -/
theorem array_copies_iff (laws : NumberLaws num finite) {identity : Nat}
    (known : heap.tables identity = some entries) (taken : takenForArray num entries = true)
    (length : entries.length = heap.len identity) {docs : List (Doc num)}
    (all : List.Forall₂ (fun v doc => Copies num heap v doc.value ↔ Whole num heap v)
      (ipairs num entries) docs) :
    Copies num heap (.object identity) (Doc.array (itemsOf docs)).value ↔
      Whole num heap (.object identity) := by
  have count : docs.length = (ipairs num entries).length := all.length_eq.symm
  have keys := indexed_keys docs
  rw [count] at keys
  have few : (ipairs num entries).length ≤ exactIntegers := by
    have first := (List.takeWhile_prefix (· ≠ Value.nil)
      (l := (indices num entries.length).map (field entries))).length_le
    rw [List.length_map, indices, List.length_map, List.length_range] at first
    exact first.trans (heap.short identity entries known)
  rw [Doc.value, itemsOf_fields, copies_table_iff known (keys ▸ indices_nodup laws few)
    (forall_indexed (p := fun v tree => Copies num heap v tree ↔ Whole num heap v) all), keys,
    whole_object_iff known, holeFree_iff laws known taken length, children, if_pos taken]
  refine and_congr_right fun _ => ?_
  conv_rhs => rw [ipairs_eq, ← keys]
  rw [List.forall_mem_map, List.forall_mem_map]

/-- **The text of an object** gives a copy exactly if its values are copied. -/
theorem object_copies_iff {identity : Nat} (known : heap.tables identity = some entries)
    (taken : takenForArray num entries = false) {members : List (StringText × Doc num)}
    (all : List.Forall₂ (fun (entry : Entry ν) member => entry.1 = .string member.1.bytes ∧
      (Copies num heap entry.2 member.2.value ↔ Whole num heap entry.2)) entries members) :
    Copies num heap (.object identity) (Doc.object (membersOf members)).value ↔
      Whole num heap (.object identity) := by
  have distinct := heap.distinct identity entries known
  have keys : (members.map fun member =>
      ((.string member.1.bytes, member.2.value) : Value ν × Tree ν)).map Prod.fst =
      entries.map Prod.fst := by
    clear known taken distinct
    induction all with
    | nil => rfl
    | cons one _ ih => rw [List.map_cons, List.map_cons, ih, List.map_cons, one.1]
  have each : ∀ pair ∈ members.map fun member =>
      ((.string member.1.bytes, member.2.value) : Value ν × Tree ν),
      (Copies num heap (field entries pair.1) pair.2 ↔ Whole num heap (field entries pair.1)) := by
    intro pair isPair
    obtain ⟨member, isMember, rfl⟩ := List.mem_map.mp isPair
    obtain ⟨i, inside, rfl⟩ := List.getElem_of_mem isMember
    have other : i < entries.length := all.length_eq ▸ inside
    obtain ⟨key, copy⟩ := all.get other inside
    simp only [List.get_eq_getElem] at key copy
    have value := field_of_mem distinct (List.getElem_mem other)
    rw [key] at value
    rwa [value]
  rw [Doc.value, membersOf_fields, copies_table_iff known (keys ▸ distinct) each, keys,
    whole_object_iff known, children, if_neg (ne_true_of_eq_false taken)]
  refine and_congr ⟨fun _ array => ?_, fun _ => List.Subset.refl _⟩ ?_
  · rw [taken] at array
    cases array
  · rw [← List.forall_mem_map (f := Prod.fst) (P := fun key => Whole num heap (field entries key)), keys,
      List.forall_mem_map, List.forall_mem_map]
    exact forall₂_congr fun entry member => by rw [field_of_mem distinct member]

/-- **The text of a value** is the text of a document; the value of the document is a copy if there is
no hole. -/
theorem encode_denotes (laws : NumberLaws num finite) {fuel : Nat} {stack : List Nat} {v : Value ν}
    {text : Bytes} (returned : encode num finite objectType heap fuel stack v = .returned text) :
    ∃ doc : Doc num, doc.text = text ∧ (Copies num heap v doc.value ↔ Whole num heap v) := by
  induction fuel generalizing stack v text with
  | zero => cases returned
  | succ fuel ih =>
    cases v with
    | nil =>
      obtain rfl := Attempt.returned.inj returned
      exact ⟨.literal (ascii "null") (by decide), rfl,
        iff_of_true .nil (whole_of_not_object fun _ same => by cases same)⟩
    | boolean b =>
      obtain rfl := Attempt.returned.inj returned
      have whole : Whole num heap (.boolean b) := whole_of_not_object fun _ same => by cases same
      cases b with
      | true => exact ⟨.literal (ascii "true") (by decide), rfl, iff_of_true (.boolean true) whole⟩
      | false => exact ⟨.literal (ascii "false") (by decide), rfl, iff_of_true (.boolean false) whole⟩
    | string val =>
      obtain rfl := Attempt.returned.inj returned
      obtain ⟨s, written, rfl⟩ := exists_quoted val
      exact ⟨.string s, written,
        iff_of_true (.string s.bytes) (whole_of_not_object fun _ same => by cases same)⟩
    | number n =>
      rw [encode, encodeNumber] at returned
      split at returned
      · next isFinite =>
        obtain rfl := Attempt.returned.inj returned
        obtain ⟨m, reads⟩ := Option.isSome_iff_exists.mp (laws.reads n isFinite)
        exact ⟨.number ⟨num.number2str n, m, laws.first n isFinite, laws.clean n isFinite, reads⟩, rfl,
          iff_of_true (.number n m reads) (whole_of_not_object fun _ same => by cases same)⟩
      · cases returned
    | object identity =>
      obtain ⟨entries, known, _, keys, shape⟩ := encode_object_returned returned
      rcases shape with ⟨taken, res, all, rfl⟩ | ⟨taken, res, all, rfl⟩
      · rw [KeysInOrder, if_pos taken] at keys
        obtain ⟨docs, rfl, copies⟩ := exists_forall₂ (fun _ _ value => ih value) all
        exact ⟨.array (itemsOf docs), by rw [Doc.text, itemsOf_text]; rfl,
          array_copies_iff laws known taken keys.2 copies⟩
      · have written : ∀ (entry : Entry ν) t, (∃ k v, entry.1 = .string k ∧
            encode num finite objectType heap fuel (identity :: stack) entry.2 = .returned v ∧
            t = encodeString k ++ charByte ':' :: v) →
            ∃ member : StringText × Doc num, memberText member = t ∧
              entry.1 = .string member.1.bytes ∧
              (Copies num heap entry.2 member.2.value ↔ Whole num heap entry.2) := by
          rintro entry t ⟨k, v, key, value, rfl⟩
          obtain ⟨s, keyHere, rfl⟩ := exists_quoted k
          obtain ⟨doc, rfl, copy⟩ := ih value
          exact ⟨(s, doc), by rw [memberText, keyHere], key, copy⟩
        obtain ⟨members, rfl, copies⟩ := exists_forall₂ written all
        exact ⟨.object (membersOf members), by rw [Doc.text, membersOf_text]; rfl,
          object_copies_iff known taken copies⟩

/-- **`json.decode` of what `json.encode` returned**: always a value, and a deep copy exactly if no table
in it has a hole. -/
theorem decodeText_encode (laws : NumberLaws num finite) {fuel more : Nat} {v : Value ν} {text : Bytes}
    (returned : encode num finite objectType heap fuel [] v = .returned text)
    (enough : 2 * text.length + 1 ≤ more) :
    ∃ back, decodeText num more text = .returned back ∧
      (Copies num heap v back ↔ Whole num heap v) := by
  obtain ⟨doc, written, copies⟩ := encode_denotes laws returned
  refine ⟨doc.value, decodeText_read ⟨noBlank, doc, noBlank, ?_, rfl⟩ enough, copies⟩
  rw [written]
  exact (List.append_nil text).symm

end Copied

/-! ### A table with holes -/

/-- Integers as their own numerals. -/
def signedIntegers : Numerals Int where
  ofInt n := n
  str2number text :=
    if text.head? = some (charByte '-') then (Numerals.integers.str2number text.tail).map fun n => -n
    else Numerals.integers.str2number text
  toInt n := Int32.ofInt n
  number2str n := decimalInt n

theorem integers_read (n : Nat) : Numerals.integers.str2number (decimal n) = some (n : Int) := by
  have digits : (decimal n).all isDigit = true := List.all_eq_true.mpr fun _ => decimal_digit
  have value : digitsValue (decimal n ++ []) = n := digitsValue_decimal n fun b head => by cases head
  rw [List.append_nil] at value
  rw [Numerals.integers]
  simp only [decimal_ne_nil n, digits, value, ne_eq, not_false_eq_true, and_self, if_true]

theorem digit_first {b : Byte} (digit : isDigit b = true) : b ∈ ascii "0123456789-" := by
  have codes : (ascii "0123456789-").map UInt8.toNat =
      [48, 49, 50, 51, 52, 53, 54, 55, 56, 57, 45] := by decide
  simp only [isDigit, Bool.and_eq_true, decide_eq_true_eq] at digit
  refine mem_of_toNat ?_
  simp only [codes, List.mem_cons, List.not_mem_nil, or_false]
  omega

theorem signedIntegers_laws : NumberLaws signedIntegers fun _ => true where
  first n _ := by
    rw [show signedIntegers.number2str n = decimalInt n from rfl, decimalInt]
    split
    · exact ⟨_, _, rfl, by decide⟩
    · obtain ⟨b, digits, shape⟩ := List.exists_cons_of_ne_nil (decimal_ne_nil n.natAbs)
      exact ⟨b, digits, shape, digit_first (decimal_digit (shape ▸ List.mem_cons_self))⟩
  clean n _ b member := by
    have others : ∀ b ∈ delimChars, isDigit b = false ∧ b ≠ charByte '-' := by decide
    intro delim
    exact notMem_decimalInt (others b delim).1 (others b delim).2 n member
  printable n _ b member := by
    by_contra control
    refine notMem_decimalInt ?_ ?_ n member
    · simp only [isDigit, Bool.and_eq_false_iff, decide_eq_false_iff_not]
      omega
    · rintro rfl
      exact control (by decide)
  reads n _ := by
    rw [show signedIntegers.number2str n = decimalInt n from rfl, decimalInt]
    split
    · simp [signedIntegers, integers_read]
    · obtain ⟨b, digits, shape⟩ := List.exists_cons_of_ne_nil (decimal_ne_nil n.natAbs)
      have digit : isDigit b = true := decimal_digit (shape ▸ List.mem_cons_self)
      have noMinus : b ≠ charByte '-' := by
        rintro rfl
        cases digit
      have read := integers_read n.natAbs
      rw [shape] at read ⊢
      simp [signedIntegers, noMinus, read]
  exact i j _ _ same := Int.ofNat.inj same

/-- `{"a", nil, "b", nil, "c"}`: three values, and `#` may be three. -/
def holedHeap : Heap Int where
  tables
    | 0 => some [(.number 1, .string (ascii "a")), (.number 3, .string (ascii "b")),
        (.number 5, .string (ascii "c"))]
    | _ => none
  identities := [0]
  known
    | 0, _ => by decide
    | _ + 1, there => by cases there
  distinct
    | 0, _, rfl => by decide
  short
    | 0, _, rfl => by decide
  noNil
    | 0, _, rfl => by decide
  len _ := 3

/-- **Two values are lost**, and nothing is raised. -/
theorem holed_lost :
    encode signedIntegers (fun _ => true) (fun _ => []) holedHeap 2 [] (.object 0) =
        .returned (ascii "[\"a\"]") ∧
      ∃ back, decodeText signedIntegers 11 (ascii "[\"a\"]") = .returned back ∧
        ¬ Copies signedIntegers holedHeap (.object 0) back := by
  have returned : encode signedIntegers (fun _ => true) (fun _ => []) holedHeap 2 [] (.object 0) =
      .returned (ascii "[\"a\"]") := rfl
  obtain ⟨back, read, copies⟩ := decodeText_encode signedIntegers_laws returned
    (by decide : 2 * (ascii "[\"a\"]").length + 1 ≤ 11)
  refine ⟨returned, back, read, fun copy => ?_⟩
  exact copies.mp copy 0 _ .refl rfl rfl (.number 2) (by decide) rfl

end Bacteria.Json
