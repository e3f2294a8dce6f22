/-
**`json.encode`.**

src/luasubmodules/json.lua, up to `parse`.

* `Heap` — the tables of a state, as many as there are, each key once, and the result of `#` for each;
  `field` — the value under a key.
* `EncodeError` — what is raised, with its text.
* `encodeString`, `encodeNumber`, `encode` — the texts of values; `encode` is given the tables it is in the
  middle of, `stack`, and goes down so many levels at most.
* `Encodable` — the values with a text: finite, with numbers that are finite, tables whose keys are 1 to
  `#`, and tables whose keys are strings.
* `encode_object_returned`, `encode_object_raised`, `encode_object_unfinished` — the three ways the encoding
  of a table ends, by those of the values in it.
-/

import Bacteria.Json.Decode
import Bacteria.Lib.LuaTable

namespace Bacteria.Json

open Clib EncDec Loops Lua

section Tables

variable {ν : Type} [DecidableEq ν]

/-- The value under a key. -/
def field (entries : List (Entry ν)) (key : Value ν) : Value ν :=
  ((entries.find? fun entry => entry.1 = key).map Prod.snd).getD .nil

/-- The integers up to here are numbers of their own, 2⁵³. -/
def exactIntegers : Nat := 9007199254740992

/-- The tables of a state. -/
structure Heap (ν : Type) where
  tables : Tables ν
  identities : List Nat
  known : ∀ identity, (tables identity).isSome → identity ∈ identities
  distinct : ∀ identity entries, tables identity = some entries → (entries.map Prod.fst).Nodup
  short : ∀ identity entries, tables identity = some entries → entries.length ≤ exactIntegers
  noNil : ∀ identity entries, tables identity = some entries →
    ∀ entry ∈ entries, entry.1 ≠ .nil ∧ entry.2 ≠ .nil
  len : Nat → Nat

end Tables

/-- The errors of the encoder. -/
inductive EncodeError (ν : Type) where
  | circular
  | mixedKeys
  | sparse
  | numberValue (n : ν)
  | unexpectedType (typeName : Bytes)

/-- The text of an error. -/
def EncodeError.text {ν : Type} (num : Numerals ν) : EncodeError ν → Bytes
  | .circular => ascii "circular reference"
  | .mixedKeys => ascii "invalid table: mixed or invalid key types"
  | .sparse => ascii "invalid table: sparse array"
  | .numberValue n => ascii "unexpected number value '" ++ num.number2str n ++ ascii "'"
  | .unexpectedType typeName => ascii "unexpected type '" ++ typeName ++ ascii "'"

/-- `%04x`. -/
def lowerHex4 (n : Nat) : Bytes :=
  List.replicate (4 - (lowerHex n).length) (charByte '0') ++ lowerHex n

/-- `escape_char`. -/
def escapeChar (c : Byte) : Bytes :=
  92 :: match escapeCharMap.lookup c with
    | some letter => [letter]
    | none => charByte 'u' :: lowerHex4 c.toNat

/-- `[%z\1-\31\\"]`. -/
def needsEscape (c : Byte) : Bool := c.toNat < 32 || c == 92 || c == 34

/-- `encode_string`. -/
def encodeString (val : Bytes) : Bytes :=
  34 :: (val.flatMap fun c => if needsEscape c then escapeChar c else [c]) ++ [34]

section Encoding

variable {ν : Type} [DecidableEq ν] (num : Numerals ν) (finite : ν → Bool)
  (objectType : Nat → Bytes) (heap : Heap ν)

/-- `encode_number`: `finite` are the numbers that are neither NaN nor infinite; `%.14g` is also the format
of `tostring`. -/
def encodeNumber (val : ν) : Attempt (EncodeError ν) Bytes :=
  if finite val then .returned (num.number2str val) else .raised (.numberValue val)

/-- `type(k) == "number"`. -/
def isNumber : Value ν → Bool
  | .number _ => true
  | _ => false

/-- `rawget(val, 1) ~= nil or next(val) == nil`: the table is taken for an array. -/
def takenForArray (entries : List (Entry ν)) : Bool :=
  field entries (.number (num.ofInt 1)) ≠ .nil || entries.isEmpty

/-- The keys 1, 2, … up to `n`. -/
def indices (n : Nat) : List (Value ν) :=
  (List.range n).map fun i : Nat => .number (num.ofInt (i + 1))

/-- What `ipairs` visits: the values under 1, 2, … up to the first nil, which comes after as many values as
there are entries at the latest. -/
def ipairs (entries : List (Entry ν)) : List (Value ν) :=
  ((indices num entries.length).map (field entries)).takeWhile (· ≠ .nil)

/-- One member of an object. -/
def encodeMember (encodeValue : Value ν → Attempt (EncodeError ν) Bytes) (entry : Entry ν) :
    Attempt (EncodeError ν) Bytes :=
  match entry.1 with
  | .string k => encodeValue entry.2 >>= fun v => .returned (encodeString k ++ charByte ':' :: v)
  | _ => .raised .mixedKeys

/-- `encode`, with `encode_table`. -/
def encode : Nat → List Nat → Value ν → Attempt (EncodeError ν) Bytes
  | 0, _, _ => .unfinished
  | fuel + 1, stack, val =>
    match val with
    | .nil => .returned (ascii "null")
    | .boolean b => .returned (if b then ascii "true" else ascii "false")
    | .string text => .returned (encodeString text)
    | .number n => encodeNumber num finite n
    | .object identity =>
      match heap.tables identity with
      | none => .raised (.unexpectedType (objectType identity))
      | some entries =>
        if identity ∈ stack then .raised .circular
        else if takenForArray num entries then
          if ¬ entries.all (isNumber ·.1) then .raised .mixedKeys
          else if entries.length ≠ heap.len identity then .raised .sparse
          else
            (ipairs num entries).mapM (encode fuel (identity :: stack)) >>= fun res =>
              .returned (charByte '[' :: List.intercalate [charByte ','] res ++ [charByte ']'])
        else
          entries.mapM (encodeMember (encode fuel (identity :: stack))) >>= fun res =>
            .returned (charByte '{' :: List.intercalate [charByte ','] res ++ [charByte '}'])

/-- The values that are encoded for a table. -/
def children (entries : List (Entry ν)) : List (Value ν) :=
  if takenForArray num entries then ipairs num entries else entries.map Prod.snd

/-- The keys are in order: numbers, as many as `#` says, or strings. -/
def KeysInOrder (identity : Nat) (entries : List (Entry ν)) : Prop :=
  if takenForArray num entries then
    (∀ entry ∈ entries, isNumber entry.1 = true) ∧ entries.length = heap.len identity
  else ∀ entry ∈ entries, isString entry.1 = true

/-- **The values with a text.** -/
inductive Encodable : Value ν → Prop where
  | nil : Encodable .nil
  | boolean (b : Bool) : Encodable (.boolean b)
  | string (text : Bytes) : Encodable (.string text)
  | number (n : ν) (isFinite : finite n = true) : Encodable (.number n)
  | table (identity : Nat) (entries : List (Entry ν)) (known : heap.tables identity = some entries)
    (keys : KeysInOrder num heap identity entries)
    (values : ∀ v ∈ children num entries, Encodable v) : Encodable (.object identity)

/-- A value is encoded for another one. What an array has behind its length, as behind a hole, is none of
its children. -/
def Child (v w : Value ν) : Prop :=
  ∃ identity entries, v = .object identity ∧ heap.tables identity = some entries ∧
    w ∈ children num entries

/-- What can be wrong with a value, apart from what it contains: nothing is. -/
def LocallyRight : Value ν → Prop
  | .number n => finite n = true
  | .object identity => ∃ entries, heap.tables identity = some entries ∧
    KeysInOrder num heap identity entries
  | _ => True

end Encoding

/-! ### One table -/

section OneTable

variable {ν : Type} [DecidableEq ν] {num : Numerals ν} {finite : ν → Bool}
  {objectType : Nat → Bytes} {heap : Heap ν} {fuel identity : Nat} {stack : List Nat}
  {entries : List (Entry ν)}

omit [DecidableEq ν] in
theorem encodeMember_returned_iff {encodeValue : Value ν → Attempt (EncodeError ν) Bytes}
    {entry : Entry ν} {text : Bytes} :
    encodeMember encodeValue entry = .returned text ↔
      ∃ k v, entry.1 = .string k ∧ encodeValue entry.2 = .returned v ∧
        text = encodeString k ++ charByte ':' :: v := by
  rw [encodeMember]
  constructor
  · intro returned
    split at returned
    · next k key =>
      obtain ⟨v, value, same⟩ := Attempt.bind_eq_returned_iff.mp returned
      exact ⟨k, v, key, value, (Attempt.returned.inj same).symm⟩
    · cases returned
  · rintro ⟨k, v, key, value, rfl⟩
    rw [key, value]
    rfl

/-- **A table is encoded** when it is not being encoded already, its keys are in order, and everything in
it is encoded. -/
theorem encode_object_returned {text : Bytes}
    (returned : encode num finite objectType heap (fuel + 1) stack (.object identity) =
      .returned text) :
    ∃ entries, heap.tables identity = some entries ∧ identity ∉ stack ∧
      KeysInOrder num heap identity entries ∧
      ((takenForArray num entries = true ∧ ∃ res, List.Forall₂ (fun v t =>
          encode num finite objectType heap fuel (identity :: stack) v = .returned t)
            (ipairs num entries) res ∧
          text = charByte '[' :: List.intercalate [charByte ','] res ++ [charByte ']']) ∨
        (takenForArray num entries = false ∧ ∃ res, List.Forall₂ (fun entry t => ∃ k v,
          entry.1 = .string k ∧
            encode num finite objectType heap fuel (identity :: stack) entry.2 = .returned v ∧
            t = encodeString k ++ charByte ':' :: v) entries res ∧
          text = charByte '{' :: List.intercalate [charByte ','] res ++ [charByte '}'])) := by
  simp only [encode] at returned
  cases known : heap.tables identity with
  | none =>
    rw [known] at returned
    cases returned
  | some entries =>
    simp only [known] at returned
    split at returned
    · cases returned
    · next new =>
      cases taken : takenForArray num entries with
      | true =>
        rw [if_pos taken] at returned
        split at returned
        · cases returned
        · next keys =>
          split at returned
          · cases returned
          · next count =>
            obtain ⟨res, all, same⟩ := Attempt.bind_eq_returned_iff.mp returned
            refine ⟨entries, rfl, new, ?_, Or.inl ⟨taken, res, Attempt.mapM_eq_returned_iff.mp all,
              (Attempt.returned.inj same).symm⟩⟩
            rw [KeysInOrder, if_pos taken]
            exact ⟨List.all_eq_true.mp (not_not.mp keys), not_not.mp count⟩
      | false =>
        rw [if_neg (ne_true_of_eq_false taken)] at returned
        obtain ⟨res, all, same⟩ := Attempt.bind_eq_returned_iff.mp returned
        have each := Attempt.mapM_eq_returned_iff.mp all
        refine ⟨entries, rfl, new, ?_, Or.inr ⟨taken, res,
          each.imp fun _ _ => encodeMember_returned_iff.mp, (Attempt.returned.inj same).symm⟩⟩
        rw [KeysInOrder, if_neg (ne_true_of_eq_false taken)]
        intro entry member
        obtain ⟨k, rest⟩ := List.getElem_of_mem member
        obtain ⟨inside, rfl⟩ := rest
        have other : k < res.length := each.length_eq ▸ inside
        obtain ⟨key, v, isKey, _⟩ := encodeMember_returned_iff.mp (each.get inside other)
        rw [List.get_eq_getElem] at isKey
        rw [isKey]
        rfl

/-- **How a table is refused.** -/
theorem encode_object_raised {error : EncodeError ν}
    (raised : encode num finite objectType heap (fuel + 1) stack (.object identity) = .raised error) :
    (heap.tables identity = none ∧ error = .unexpectedType (objectType identity)) ∨
      ∃ entries, heap.tables identity = some entries ∧
        ((identity ∈ stack ∧ error = .circular) ∨
          (¬ KeysInOrder num heap identity entries ∧ (error = .mixedKeys ∨ error = .sparse)) ∨
          (identity ∉ stack ∧ ∃ v ∈ children num entries,
            encode num finite objectType heap fuel (identity :: stack) v = .raised error)) := by
  simp only [encode] at raised
  cases known : heap.tables identity with
  | none =>
    rw [known] at raised
    exact Or.inl ⟨rfl, (Attempt.raised.inj raised).symm⟩
  | some entries =>
    refine Or.inr ⟨entries, rfl, ?_⟩
    simp only [known] at raised
    split at raised
    · next old => exact Or.inl ⟨old, (Attempt.raised.inj raised).symm⟩
    · next new =>
      cases taken : takenForArray num entries with
      | true =>
        rw [if_pos taken] at raised
        split at raised
        · next keys =>
          refine Or.inr (Or.inl ⟨fun right => keys ?_, Or.inl (Attempt.raised.inj raised).symm⟩)
          rw [KeysInOrder, if_pos taken] at right
          exact List.all_eq_true.mpr right.1
        · split at raised
          · next count =>
            refine Or.inr (Or.inl ⟨fun right => count ?_, Or.inr (Attempt.raised.inj raised).symm⟩)
            rw [KeysInOrder, if_pos taken] at right
            exact right.2
          · rcases Attempt.bind_eq_raised_iff.mp raised with all | ⟨res, _, same⟩
            · obtain ⟨v, member, here⟩ := Attempt.exists_of_mapM_raised all
              exact Or.inr (Or.inr ⟨new, v, by rwa [children, if_pos taken], here⟩)
            · cases same
      | false =>
        rw [if_neg (ne_true_of_eq_false taken)] at raised
        rcases Attempt.bind_eq_raised_iff.mp raised with all | ⟨res, _, same⟩
        · obtain ⟨entry, member, here⟩ := Attempt.exists_of_mapM_raised all
          rw [encodeMember] at here
          split at here
          · rcases Attempt.bind_eq_raised_iff.mp here with value | ⟨v, _, same⟩
            · refine Or.inr (Or.inr ⟨new, entry.2, ?_, value⟩)
              rw [children, if_neg (ne_true_of_eq_false taken)]
              exact List.mem_map_of_mem member
            · cases same
          · next other =>
            refine Or.inr (Or.inl ⟨fun right => ?_, Or.inl (Attempt.raised.inj here).symm⟩)
            rw [KeysInOrder, if_neg (ne_true_of_eq_false taken)] at right
            have isKey := right entry member
            cases key : entry.1 with
            | string k => exact other k key
            | _ =>
              rw [key] at isKey
              cases isKey
        · cases same

/-- If the fuel is used up, it is used up in a value of a table that is entered for the first time. -/
theorem encode_object_unfinished
    (open_ : encode num finite objectType heap (fuel + 1) stack (.object identity) = .unfinished) :
    ∃ entries, heap.tables identity = some entries ∧ identity ∉ stack ∧
      ∃ v, encode num finite objectType heap fuel (identity :: stack) v = .unfinished := by
  simp only [encode] at open_
  cases known : heap.tables identity with
  | none =>
    rw [known] at open_
    cases open_
  | some entries =>
    simp only [known] at open_
    split at open_
    · cases open_
    · next new =>
      refine ⟨entries, rfl, new, ?_⟩
      split at open_
      · split at open_
        · cases open_
        · split at open_
          · cases open_
          · rcases Attempt.bind_eq_unfinished_iff.mp open_ with all | ⟨res, _, same⟩
            · obtain ⟨v, _, here⟩ := Attempt.exists_of_mapM_unfinished all
              exact ⟨v, here⟩
            · cases same
      · rcases Attempt.bind_eq_unfinished_iff.mp open_ with all | ⟨res, _, same⟩
        · obtain ⟨entry, _, here⟩ := Attempt.exists_of_mapM_unfinished all
          rw [encodeMember] at here
          split at here
          · rcases Attempt.bind_eq_unfinished_iff.mp here with value | ⟨v, _, same⟩
            · exact ⟨entry.2, value⟩
            · cases same
          · cases here
        · cases same

end OneTable

end Bacteria.Json
