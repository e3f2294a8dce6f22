/-
**Every way to write a character in a string.**

A text may have a character as its UTF-8 bytes, as one of the short escapes, or as the digits of its
UTF-16 code units.

* `utf16` — the code units of a character; `Writes` — the ways it is written.
* `codepointToUtf8_char` — `codepoint_to_utf8` gives the UTF-8 bytes of every character.
* `highHalf_of_range` — the numbers of the first halves are those that `surrogatePair` looks for.
* `WrittenBy` — pieces of a string stand for bytes, whatever follows them; `writtenBy_of_writes` — so does
  a written character.
* `decodeText_written` — `json.decode` of a string of characters is their UTF-8.
-/

import Bacteria.Json.Accept
import Bacteria.Json.Copy

namespace Bacteria.Json

open Clib EncDec Loops Lua

/-- The UTF-16 code units of a character. -/
def utf16 (c : Char) : List Nat :=
  if c.toNat < 0x10000 then [c.toNat]
  else [0xd800 + (c.toNat - 0x10000) / 0x400, 0xdc00 + (c.toNat - 0x10000) % 0x400]

/-- Code units, each as `\u` and four digits of either case. -/
def Escapes (units : List Nat) (text : Bytes) : Prop :=
  ∃ hexes : List Bytes, (∀ hex ∈ hexes, FourDigits hex) ∧ hexes.map hexNumber = units ∧
    text = hexes.flatMap fun hex => 92 :: charByte 'u' :: hex

/-- **How a character is written.** -/
inductive Writes (c : Char) : Bytes → Prop where
  | plain (printable : 32 ≤ c.toNat) (noQuote : c ≠ '"') (noBackslash : c ≠ '\\') :
      Writes c (String.utf8EncodeChar c)
  | short (letter b : Byte) (known : letter ∈ escapeChars)
      (stands : escapeCharMapInv.lookup letter = some b) (same : c.toNat = b.toNat) :
      Writes c [92, letter]
  | escapes (text : Bytes) (units : Escapes (utf16 c) text) : Writes c text

section Characters

variable {c : Char} {text hex : Bytes}

/-- The numbers of the halves of pairs are no characters. -/
theorem scalar_range (c : Char) : c.toNat < 0xd800 ∨ 0xdfff < c.toNat ∧ c.toNat < 0x110000 := c.valid

/-- **`codepoint_to_utf8`** gives the UTF-8 of every character. -/
theorem codepointToUtf8_char (c : Char) :
    codepointToUtf8 c.toNat = .returned (String.utf8EncodeChar c) := by
  have last := scalar_range c
  have byte : ∀ {a : Int} {b : Nat}, a = b → UInt8.ofNat a.toNat = UInt8.ofNat b := by
    rintro a b rfl
    rfl
  simp only [codepointToUtf8, String.utf8EncodeChar, Char.toNat] at *
  generalize c.val.toNat = n at *
  by_cases one : n ≤ 0x7f
  · rw [if_pos (by omega), if_pos one, stringChar_of_range (by simp; omega)]
    rfl
  rw [if_neg (by omega), if_neg one]
  by_cases two : n ≤ 0x7ff
  · rw [if_pos (by omega), if_pos two, stringChar_of_range (by simp; omega)]
    simp only [List.map_cons, List.map_nil]
    rw [byte (b := n / 64 % 0x20 + 0xc0) (by omega), byte (b := n % 0x40 + 0x80) (by omega)]
  rw [if_neg (by omega), if_neg two]
  by_cases three : n ≤ 0xffff
  · rw [if_pos (by omega), if_pos three, stringChar_of_range (by simp; omega)]
    simp only [List.map_cons, List.map_nil]
    rw [byte (b := n / 4096 % 0x10 + 0xe0) (by omega), byte (b := n / 64 % 0x40 + 0x80) (by omega),
      byte (b := n % 0x40 + 0x80) (by omega)]
  rw [if_neg (by omega), if_neg three, if_pos (by omega), stringChar_of_range (by simp; omega)]
  simp only [List.map_cons, List.map_nil]
  rw [byte (b := n / 262144 % 0x08 + 0xf0) (by omega), byte (b := n / 4096 % 0x40 + 0x80) (by omega),
    byte (b := n / 64 % 0x40 + 0x80) (by omega), byte (b := n % 0x40 + 0x80) (by omega)]

/-- **The first halves** of pairs are those that the pattern looks for. -/
theorem highHalf_of_range (four : FourDigits hex) (least : 0xd800 ≤ hexNumber hex)
    (most : hexNumber hex < 0xdc00) : HighHalf hex := by
  obtain ⟨size, digits⟩ := four
  match hex, size, digits with
  | [a, b, c, d], _, digits =>
    obtain ⟨va, isA⟩ := hexValue_of_isXDigit (digits a (by simp))
    obtain ⟨vb, isB⟩ := hexValue_of_isXDigit (digits b (by simp))
    obtain ⟨vc, isC⟩ := hexValue_of_isXDigit (digits c (by simp))
    obtain ⟨vd, isD⟩ := hexValue_of_isXDigit (digits d (by simp))
    have smallB := (hexValue_spec isB).1
    have smallC := (hexValue_spec isC).1
    have smallD := (hexValue_spec isD).1
    simp only [hexNumber, hexDigits, isA, isB, isC, isD] at least most
    have a13 : va = 13 := by omega
    have b8 : 8 ≤ vb ∧ vb < 12 := by omega
    have rangeA := hexValue_range isA
    have rangeB := hexValue_range isB
    refine ⟨a, b, [c, d], rfl, mem_of_toNat ?_, mem_of_toNat ?_⟩
    · have codes : (ascii "dD").map UInt8.toNat = [100, 68] := by decide
      simp only [codes, List.mem_cons, List.not_mem_nil, or_false]
      omega
    · have codes : (ascii "89aAbB").map UInt8.toNat = [56, 57, 97, 65, 98, 66] := by decide
      simp only [codes, List.mem_cons, List.not_mem_nil, or_false]
      omega

end Characters

/-! ### Characters as parts of a string -/

section Written

variable {c : Char} {text hex : Bytes}

/-- The bytes of a character: its number, or bytes behind the ASCII ones. -/
theorem utf8_bytes (c : Char) :
    ∀ b ∈ String.utf8EncodeChar c, b.toNat = c.toNat ∨ 128 ≤ b.toNat := by
  intro b member
  simp only [String.utf8EncodeChar, Char.toNat_val] at member
  split_ifs at member <;>
    simp only [List.mem_cons, List.not_mem_nil, or_false] at member <;>
    rcases member with rfl | rfl | rfl | rfl <;>
    simp only [UInt8.toNat_ofNat'] <;> omega

/-- The bytes of a character that is no control character, quote or backslash are none either. -/
theorem utf8_printable (printable : 32 ≤ c.toNat) (noQuote : c ≠ '"') (noBackslash : c ≠ '\\')
    (b : Byte) (member : b ∈ String.utf8EncodeChar c) : 32 ≤ b.toNat ∧ b ≠ 34 ∧ b ≠ 92 := by
  have noQuote' : c.toNat ≠ 34 := fun same => noQuote (Char.toNat_inj.mp same)
  have noBackslash' : c.toNat ≠ 92 := fun same => noBackslash (Char.toNat_inj.mp same)
  have code := utf8_bytes c b member
  refine ⟨by omega, ?_, ?_⟩
  · rintro rfl
    rcases code with same | high
    · exact noQuote' same.symm
    · exact absurd high (by decide)
  · rintro rfl
    rcases code with same | high
    · exact noBackslash' same.symm
    · exact absurd high (by decide)

/-- Characters that are never the first half of a pair. -/
theorem separate_of_apart {pieces : List Piece} (apart : ∀ piece ∈ pieces, ∀ more, piece.Apart more) :
    Separate pieces := by
  induction pieces with
  | nil => trivial
  | cons piece pieces ih =>
    exact ⟨apart piece List.mem_cons_self pieces,
      ih fun other member => apart other (List.mem_cons_of_mem _ member)⟩

/-- Pieces of a string that stand for these bytes, whatever follows them. -/
def WrittenBy (text bytes : Bytes) : Prop :=
  ∃ pieces : List Piece, pieces.flatMap Piece.text = text ∧ pieces.flatMap Piece.bytes = bytes ∧
    ∀ piece ∈ pieces, ∀ more, piece.Apart more

theorem writtenBy_piece (piece : Piece) (apart : ∀ more, piece.Apart more) :
    WrittenBy piece.text piece.bytes := by
  refine ⟨[piece], List.append_nil _, List.append_nil _, fun other member => ?_⟩
  obtain rfl := List.mem_singleton.mp member
  exact apart

theorem WrittenBy.append {text more bytes others : Bytes} (first : WrittenBy text bytes)
    (second : WrittenBy more others) : WrittenBy (text ++ more) (bytes ++ others) := by
  obtain ⟨pieces, rfl, rfl, apart⟩ := first
  obtain ⟨pieces', rfl, rfl, apart'⟩ := second
  refine ⟨pieces ++ pieces', List.flatMap_append, List.flatMap_append, fun piece member => ?_⟩
  rcases List.mem_append.mp member with here | there
  · exact apart piece here
  · exact apart' piece there

/-- Printable bytes are written as they are. -/
theorem writtenBy_plain {bytes : Bytes} (plain : ∀ b ∈ bytes, 32 ≤ b.toNat ∧ b ≠ 34 ∧ b ≠ 92) :
    WrittenBy bytes bytes := by
  induction bytes with
  | nil => exact ⟨[], rfl, rfl, fun piece member => by cases member⟩
  | cons b bytes ih =>
    have first : WrittenBy [b] [b] :=
      writtenBy_piece (.plain b (plain b List.mem_cons_self)) fun _ => trivial
    exact first.append (ih fun other member => plain other (List.mem_cons_of_mem _ member))

/-- **One code unit**: the numbers of the halves are no characters. -/
theorem writtenBy_unit (four : FourDigits hex) (number : hexNumber hex = c.toNat) :
    WrittenBy (92 :: charByte 'u' :: hex) (String.utf8EncodeChar c) := by
  have stands := codepointToUtf8_char c
  rw [← number] at stands
  refine writtenBy_piece (.unicode hex _ four stands) fun more => ?_
  cases more with
  | nil => trivial
  | cons next more =>
    intro half
    have range := surrogate_range four half
    have scalar := scalar_range c
    omega

/-- **Two code units.** -/
theorem writtenBy_pair {high low : Bytes} (digits : FourDigits high ∧ FourDigits low)
    (large : 0x10000 ≤ c.toNat) (first : hexNumber high = 0xd800 + (c.toNat - 0x10000) / 0x400)
    (second : hexNumber low = 0xdc00 + (c.toNat - 0x10000) % 0x400) :
    WrittenBy (92 :: charByte 'u' :: (high ++ 92 :: charByte 'u' :: low)) (String.utf8EncodeChar c) := by
  have scalar := scalar_range c
  have half : HighHalf high := highHalf_of_range digits.1 (by omega) (by omega)
  have stands := codepointToUtf8_char c
  have number : (c.toNat : Int) =
      ((hexNumber high : Int) - 0xd800) * 0x400 + (hexNumber low - 0xdc00) + 0x10000 := by omega
  rw [number] at stands
  exact writtenBy_piece (.surrogates high low _ digits half stands) fun _ => trivial

/-- **A written character is a part of a string.** -/
theorem writtenBy_of_writes (writes : Writes c text) : WrittenBy text (String.utf8EncodeChar c) := by
  cases writes with
  | plain printable noQuote noBackslash =>
    exact writtenBy_plain (utf8_printable printable noQuote noBackslash)
  | short letter b known stands same =>
    have single : String.utf8EncodeChar c = [b] := by
      have all : ∀ pair ∈ escapeCharMapInv, pair.2.toNat ≤ 0x7f := by decide
      have small : c.val.toNat ≤ 0x7f := by
        rw [Char.toNat_val, same]
        exact all _ (mem_of_lookup stands)
      rw [String.utf8EncodeChar, if_pos small, Char.toNat_val, same, UInt8.ofNat_toNat]
    rw [single]
    exact writtenBy_piece (.short letter b known stands) fun _ => trivial
  | escapes text units =>
    obtain ⟨hexes, digits, numbers, rfl⟩ := units
    rw [utf16] at numbers
    split at numbers
    · obtain ⟨hex, rfl, number⟩ := List.map_eq_singleton_iff.mp numbers
      rw [List.flatMap_singleton]
      exact writtenBy_unit (digits hex (List.mem_singleton_self hex)) number
    · next large =>
      obtain ⟨high, _, rfl, first, rest⟩ := List.map_eq_cons_iff.mp numbers
      obtain ⟨low, rfl, second⟩ := List.map_eq_singleton_iff.mp rest
      rw [List.flatMap_cons, List.flatMap_singleton]
      exact writtenBy_pair ⟨digits high (by simp), digits low (by simp)⟩ (Nat.not_lt.mp large) first second

end Written

/-! ### Strings of characters -/

section Texts

variable {ν : Type} [DecidableEq ν] {num : Numerals ν}

/-- **`json.decode` of a string of characters**, each written in any of the ways, is their UTF-8. -/
theorem decodeText_written {cs : List Char} {texts : List Bytes} (written : List.Forall₂ Writes cs texts)
    {fuel : Nat} (enough : 2 * texts.flatten.length + 5 ≤ fuel) :
    decodeText num fuel (34 :: texts.flatten ++ [34]) =
      .returned (.string (cs.flatMap String.utf8EncodeChar)) := by
  have all : WrittenBy texts.flatten (cs.flatMap String.utf8EncodeChar) := by
    clear enough
    induction written with
    | nil => exact writtenBy_plain fun b member => by cases member
    | cons one _ ih => exact (writtenBy_of_writes one).append ih
  obtain ⟨pieces, text, bytes, apart⟩ := all
  let s : StringText := ⟨pieces, separate_of_apart apart⟩
  have denotes : Denotes num (34 :: texts.flatten ++ [34]) (.string (cs.flatMap String.utf8EncodeChar)) := by
    refine ⟨noBlank, .string s, noBlank, ?_, ?_⟩
    · simp [noBlank, Doc.text, StringText.text, s, text]
    · rw [Doc.value, StringText.bytes, bytes]
  refine decodeText_read denotes ?_
  simp only [List.length_append, List.length_cons, List.length_nil]
  omega

end Texts

/-- A pair of both cases, and a short escape. -/
theorem decodeText_pair :
    decodeText signedIntegers 40 (34 :: [ascii "\\ud83D\\uDe00", ascii "\\n"].flatten ++ [34]) =
      .returned (.string ([Char.ofNat 0x1f600, Char.ofNat 10].flatMap String.utf8EncodeChar)) := by
  have first : Writes (Char.ofNat 0x1f600) (ascii "\\ud83D\\uDe00") := by
    refine .escapes _ ⟨[ascii "d83D", ascii "De00"], fun hex member => ?_, by decide, by decide⟩
    have all : ∀ hex ∈ [ascii "d83D", ascii "De00"], hex.length = 4 ∧ ∀ b ∈ hex, isXDigit b = true := by
      decide
    exact all hex member
  have second : Writes (Char.ofNat 10) (ascii "\\n") :=
    .short (charByte 'n') 10 (by decide) (by decide) (by decide)
  exact decodeText_written (.cons first (.cons second .nil)) (by decide)

end Bacteria.Json
