/-
**`json.decode`.**

src/luasubmodules/json.lua, from `parse` on.

* `Tree` — a Lua value as the decoder makes it: its tables are new, and shared by nobody.
* `DecodeError` — what is raised, with its text; `decodeError` — `decode_error`, the line and the column
  of a position.
* `codepointToUtf8`, `parseUnicodeEscape` — the characters written as `\u`.
* `stringLoop`, `parseNumber`, `parseLiteral` — the values without a value in them.
* `parse`, `arrayLoop`, `objectLoop` — every value, by its first character.
* `decode` — `json.decode`, with so many calls and turns of its loops inside each other at most.
-/

import Bacteria.EncDec.Hex
import Bacteria.Lib.Attempt
import Bacteria.Lib.Cursor
import Bacteria.Lib.Lua
import Mathlib.Logic.Function.Basic

namespace Bacteria.Json

open Clib Cursor EncDec Loops Lua

/-- What holds of every entry of a list is decided entry by entry, however small their type is. -/
scoped instance forallMemDecidable {α : Type} (list : List α) (p : α → Prop) [DecidablePred p] :
    Decidable (∀ a ∈ list, p a) :=
  List.decidableBAll p list

/-- A Lua value without tables that others know: what a table has at each key, nil where it has nothing. -/
inductive Tree (ν : Type) where
  | nil
  | boolean (b : Bool)
  | number (n : ν)
  | string (text : Bytes)
  | table (fields : Value ν → Tree ν)

/-- `{}`. -/
def emptyFields {ν : Type} : Value ν → Tree ν := fun _ => .nil

/-- The errors of the decoder. -/
inductive DecodeError where
  /-- `decode_error`. -/
  | located (msg : Bytes) (line col : Nat)
  /-- No character has this number. -/
  | codepoint (n : Int)
  /-- The argument is no string. -/
  | argument (typeName : Bytes)
  /-- An error of Lua itself. -/
  | lua (msg : Bytes)
deriving DecidableEq

/-- `%x`. -/
def lowerHex (n : Nat) : Bytes := (Nat.toDigits 16 n).map charByte

/-- The text of an error. -/
def DecodeError.text : DecodeError → Bytes
  | .located msg line col => msg ++ ascii " at line " ++ decimal line ++ ascii " col " ++ decimal col
  | .codepoint n => ascii "invalid unicode codepoint '" ++ lowerHex n.toNat ++ ascii "'"
  | .argument typeName => ascii "expected argument of type string, got " ++ typeName
  | .lua msg => msg

/-- What the decoder returns, if it does. -/
abbrev Decoding (α : Type) := Attempt DecodeError α

/-- `space_chars`. -/
def spaceChars : List Byte := ascii " \t\r\n"

/-- `delim_chars`. -/
def delimChars : List Byte := ascii " \t\r\n]\x7d,"

/-- `escape_chars`. -/
def escapeChars : List Byte := ascii "\\/\"bfnrtu"

/-- `literals`. -/
def literals : List Bytes := [ascii "true", ascii "false", ascii "null"]

/-- `escape_char_map`. -/
def escapeCharMap : List (Byte × Byte) :=
  [(92, 92), (34, 34), (8, charByte 'b'), (12, charByte 'f'), (10, charByte 'n'),
    (13, charByte 'r'), (9, charByte 't')]

/-- `escape_char_map_inv`. -/
def escapeCharMapInv : List (Byte × Byte) := (47, 47) :: escapeCharMap.map Prod.swap

/-- `next_char(str, idx, set, negate)`. -/
def nextChar (str : Bytes) (idx : Nat) (set : List Byte) (negate : Bool) : Nat :=
  skipTo (fun c => decide (c ∈ set) != negate) str idx

/-- The line and the column that the loop of `decode_error` counts up to position `idx`. -/
def lineCol (str : Bytes) (idx : Nat) : Nat × Nat :=
  (List.range (idx - 1)).foldl
    (fun counts i => if charAt str (i + 1) = some 10 then (counts.1 + 1, 1) else (counts.1, counts.2 + 1))
    (1, 1)

/-- `decode_error`. -/
def decodeError {α : Type} (str : Bytes) (idx : Nat) (msg : Bytes) : Decoding α :=
  .raised (.located msg (lineCol str idx).1 (lineCol str idx).2)

/-! ### The characters written as `\u` -/

/-- `string.char`. -/
def stringChar (codes : List Int) : Decoding Bytes :=
  if ∀ code ∈ codes, 0 ≤ code ∧ code < 256 then
    .returned (codes.map fun code => UInt8.ofNat code.toNat)
  else .raised (.lua (ascii "invalid value"))

/-- `codepoint_to_utf8`. -/
def codepointToUtf8 (n : Int) : Decoding Bytes :=
  if n ≤ 0x7f then stringChar [n]
  else if n ≤ 0x7ff then stringChar [n / 64 + 192, n % 64 + 128]
  else if n ≤ 0xffff then stringChar [n / 4096 + 224, n % 4096 / 64 + 128, n % 64 + 128]
  else if n ≤ 0x10ffff then
    stringChar [n / 262144 + 240, n % 262144 / 4096 + 128, n % 4096 / 64 + 128, n % 64 + 128]
  else .raised (.codepoint n)

/-- `parse_unicode_escape`. -/
def parseUnicodeEscape (s : Bytes) : Decoding Bytes :=
  match tonumber16 (sub s 1 4), tonumber16 (sub s 7 10) with
  | some n1, some n2 => codepointToUtf8 ((n1 - 0xd800) * 0x400 + (n2 - 0xdc00) + 0x10000)
  | some n1, none => codepointToUtf8 n1
  | none, _ => .raised (.lua (ascii "attempt to perform arithmetic on a nil value"))

/-- `[…]` in a pattern, and a character that stands for itself. -/
def oneOf (set : List Byte) (b : Byte) : Bool := b ∈ set

/-- `%x` in a pattern. -/
def isXDigit (b : Byte) : Bool := (hexValue b).isSome

/-- `string.match` with a pattern of one class for each character, fixed at a position. -/
def matchAt (pattern : List (Byte → Bool)) (str : Bytes) (i : Nat) : Option Bytes :=
  let found := (str.drop (i - 1)).take pattern.length
  if found.length = pattern.length ∧ (List.zipWith (· ·) pattern found).all id then some found
  else none

/-- `%x%x%x%x`. -/
def fourDigits : List (Byte → Bool) := List.replicate 4 isXDigit

/-- `[dD][89aAbB]%x%x\u%x%x%x%x`. -/
def surrogatePair : List (Byte → Bool) :=
  [oneOf (ascii "dD"), oneOf (ascii "89aAbB"), isXDigit, isXDigit, oneOf [92], oneOf (ascii "u")] ++
    fourDigits

/-! ### Values without a value in them -/

/-- The loop of `parse_string`: what is decoded, where the part begins that is not copied yet, and the
position. -/
def stringLoop (str : Bytes) (i : Nat) : Nat → Bytes → Nat → Nat → Decoding (Bytes × Nat)
  | 0, _, _, _ => .unfinished
  | fuel + 1, res, k, j =>
    match charAt str j with
    | none => decodeError str i (ascii "expected closing quote for string")
    | some x =>
      if x.toNat < 32 then decodeError str j (ascii "control character in string")
      else if x = 92 then
        let res := res ++ sub str k (j - 1)
        let j := j + 1
        let c := charAt str j
        if c = some (charByte 'u') then
          match (matchAt surrogatePair str (j + 1)).or (matchAt fourDigits str (j + 1)) with
          | none => decodeError str (j - 1) (ascii "invalid unicode escape in string")
          | some hex =>
            parseUnicodeEscape hex >>= fun character =>
              stringLoop str i fuel (res ++ character) (j + hex.length + 1) (j + hex.length + 1)
        else
          match c.filter (· ∈ escapeChars) with
          | none =>
            decodeError str (j - 1)
              (ascii "invalid escape char '" ++ c.toList ++ ascii "' in string")
          | some c =>
            match escapeCharMapInv.lookup c with
            | none => .raised (.lua (ascii "attempt to concatenate a nil value"))
            | some character => stringLoop str i fuel (res ++ [character]) (j + 1) (j + 1)
      else if x = 34 then .returned (res ++ sub str k (j - 1), j + 1)
      else stringLoop str i fuel res k (j + 1)

/-- `parse_string`: a turn of its loop moves on by a character at least. -/
def parseString (str : Bytes) (i : Nat) : Decoding (Bytes × Nat) :=
  stringLoop str i (str.length + 1) [] (i + 1) (i + 1)

section Values

variable {ν : Type} (num : Numerals ν)

/-- `parse_number`. -/
def parseNumber (str : Bytes) (i : Nat) : Decoding (Tree ν × Nat) :=
  let x := nextChar str i delimChars false
  let s := sub str i (x - 1)
  match num.str2number s with
  | none => decodeError str i (ascii "invalid number '" ++ s ++ ascii "'")
  | some n => .returned (.number n, x)

/-- `literal_map`. -/
def literalMap (word : Bytes) : Tree ν :=
  if word = ascii "true" then .boolean true
  else if word = ascii "false" then .boolean false
  else .nil

/-- `parse_literal`. -/
def parseLiteral (str : Bytes) (i : Nat) : Decoding (Tree ν × Nat) :=
  let x := nextChar str i delimChars false
  let word := sub str i (x - 1)
  if word ∈ literals then .returned (literalMap word, x)
  else decodeError str i (ascii "invalid literal '" ++ word ++ ascii "'")

/-! ### All values

The fuel is handed on whole: it bounds how deep calls and turns lie inside each other, not how many there
are. -/

variable [DecidableEq ν]

mutual

/-- `parse`, with `char_func_map` and the first lines of `parse_array` and `parse_object`. -/
def parse (str : Bytes) : Nat → Nat → Decoding (Tree ν × Nat)
  | 0, _ => .unfinished
  | fuel + 1, idx =>
    match charAt str idx with
    | none => decodeError str idx (ascii "unexpected character ''")
    | some chr =>
      if chr = 34 then parseString str idx >>= fun parsed => .returned (.string parsed.1, parsed.2)
      else if chr ∈ ascii "0123456789-" then parseNumber num str idx
      else if chr ∈ ascii "tfn" then parseLiteral str idx
      else if chr = charByte '[' then arrayLoop str fuel emptyFields 1 (idx + 1)
      else if chr = charByte '{' then objectLoop str fuel emptyFields (idx + 1)
      else decodeError str idx (ascii "unexpected character '" ++ [chr] ++ ascii "'")
termination_by structural fuel => fuel

/-- The loop of `parse_array`: the table, the index of the next value, and the position. -/
def arrayLoop (str : Bytes) : Nat → (Value ν → Tree ν) → Nat → Nat → Decoding (Tree ν × Nat)
  | 0, _, _, _ => .unfinished
  | fuel + 1, res, n, i =>
    let i := nextChar str i spaceChars true
    if charAt str i = some (charByte ']') then .returned (.table res, i + 1)
    else
      parse str fuel i >>= fun parsed =>
        let res := Function.update res (.number (num.ofInt n)) parsed.1
        let i := nextChar str parsed.2 spaceChars true
        let chr := charAt str i
        let i := i + 1
        if chr = some (charByte ']') then .returned (.table res, i)
        else if chr = some (charByte ',') then arrayLoop str fuel res (n + 1) i
        else decodeError str i (ascii "expected ']' or ','")
termination_by structural fuel => fuel

/-- The loop of `parse_object`: the table and the position. -/
def objectLoop (str : Bytes) : Nat → (Value ν → Tree ν) → Nat → Decoding (Tree ν × Nat)
  | 0, _, _ => .unfinished
  | fuel + 1, res, i =>
    let i := nextChar str i spaceChars true
    if charAt str i = some (charByte '}') then .returned (.table res, i + 1)
    else if charAt str i ≠ some 34 then decodeError str i (ascii "expected string for key")
    else
      parseString str i >>= fun key =>
        let i := nextChar str key.2 spaceChars true
        if charAt str i ≠ some (charByte ':') then
          decodeError str i (ascii "expected ':' after key")
        else
          parse str fuel (nextChar str (i + 1) spaceChars true) >>= fun parsed =>
            let res := Function.update res (.string key.1) parsed.1
            let i := nextChar str parsed.2 spaceChars true
            let chr := charAt str i
            let i := i + 1
            if chr = some (charByte '}') then .returned (.table res, i)
            else if chr = some (charByte ',') then objectLoop str fuel res i
            else decodeError str i (ascii "expected '\x7d' or ','")
termination_by structural fuel => fuel

end

/-- `json.decode` of a string. -/
def decodeText (fuel : Nat) (str : Bytes) : Decoding (Tree ν) :=
  parse num str fuel (nextChar str 1 spaceChars true) >>= fun parsed =>
    let idx := nextChar str parsed.2 spaceChars true
    if idx ≤ str.length then decodeError str idx (ascii "trailing garbage") else .returned parsed.1

/-- `type`; what the other objects are is up to the state. -/
def Value.typeName (objectType : Nat → Bytes) : Value ν → Bytes
  | .nil => ascii "nil"
  | .boolean _ => ascii "boolean"
  | .number _ => ascii "number"
  | .string _ => ascii "string"
  | .object identity => objectType identity

/-- `type(v) == "string"`. -/
def isString : Value ν → Bool
  | .string _ => true
  | _ => false

/-- `json.decode`. -/
def decode (objectType : Nat → Bytes) (fuel : Nat) : Value ν → Decoding (Tree ν)
  | .string str => decodeText num fuel str
  | other => .raised (.argument (Value.typeName objectType other))

end Values

end Bacteria.Json
