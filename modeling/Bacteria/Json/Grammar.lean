/-
**The texts that `json.decode` is for.**

A grammar for the texts, with what each of them stands for. Its parts carry what makes them well formed,
so that every document has a text that is one.

* `Blank`, `NumberWord`, `Piece`, `StringText` — white space, numbers, and strings with their escapes.
* `Doc`, `Items`, `Members` — values, what follows `[`, and what follows `{`; a comma may stand before
  the closing bracket.
* `Doc.text`, `Doc.value` — the text of a document, and the value.
* `Denotes` — a text is a document between blanks, and its value is this one.
-/

import Bacteria.Json.Decode

namespace Bacteria.Json

open Clib EncDec Loops Lua

/-- White space. -/
structure Blank where
  bytes : Bytes
  spaces : ∀ b ∈ bytes, b ∈ spaceChars

/-- No white space. -/
def noBlank : Blank := ⟨[], fun _ member => absurd member List.not_mem_nil⟩

/-- Four hexadecimal digits. -/
def FourDigits (hex : Bytes) : Prop := hex.length = 4 ∧ ∀ b ∈ hex, isXDigit b = true

/-- The number of hexadecimal digits. -/
def hexNumber (hex : Bytes) : Nat := (hexDigits 0 0 hex).1

/-- The digits of the first half of a pair. -/
def HighHalf (hex : Bytes) : Prop :=
  ∃ d second rest, hex = d :: second :: rest ∧ d ∈ ascii "dD" ∧ second ∈ ascii "89aAbB"

/-- A character of a string, as it is written. -/
inductive Piece where
  | plain (b : Byte) (printable : 32 ≤ b.toNat ∧ b ≠ 34 ∧ b ≠ 92)
  | short (c b : Byte) (known : c ∈ escapeChars) (stands : escapeCharMapInv.lookup c = some b)
  | unicode (hex : Bytes) (character : Bytes) (digits : FourDigits hex)
    (stands : codepointToUtf8 (hexNumber hex) = .returned character)
  | surrogates (high low : Bytes) (character : Bytes) (digits : FourDigits high ∧ FourDigits low)
    (half : HighHalf high)
    (stands : codepointToUtf8
      (((hexNumber high : Int) - 0xd800) * 0x400 + (hexNumber low - 0xdc00) + 0x10000) =
        .returned character)

namespace Piece

/-- How it is written. -/
def text : Piece → Bytes
  | plain b _ => [b]
  | short c _ _ _ => [92, c]
  | unicode hex _ _ _ => 92 :: charByte 'u' :: hex
  | surrogates high low _ _ _ _ => 92 :: charByte 'u' :: (high ++ 92 :: charByte 'u' :: low)

/-- What it stands for. -/
def bytes : Piece → Bytes
  | plain b _ => [b]
  | short _ b _ _ => [b]
  | unicode _ character _ _ => character
  | surrogates _ _ character _ _ _ => character

/-- It starts with `\u`. -/
def IsUnicode : Piece → Prop
  | plain _ _ => False
  | short _ _ _ _ => False
  | unicode _ _ _ _ => True
  | surrogates _ _ _ _ _ _ => True

/-- It is no half of a pair that the next character is the other half of. -/
def Apart : Piece → List Piece → Prop
  | unicode hex _ _ _, next :: _ => HighHalf hex → ¬ next.IsUnicode
  | _, _ => True

end Piece

/-- No two characters that are read as one pair. -/
def Separate : List Piece → Prop
  | [] => True
  | piece :: pieces => piece.Apart pieces ∧ Separate pieces

/-- A string, between its quotes. -/
structure StringText where
  pieces : List Piece
  separate : Separate pieces

namespace StringText

/-- How it is written. -/
def text (s : StringText) : Bytes := 34 :: (s.pieces.flatMap Piece.text ++ [34])

/-- The string. -/
def bytes (s : StringText) : Bytes := s.pieces.flatMap Piece.bytes

end StringText

section Documents

variable {ν : Type} (num : Numerals ν)

/-- A number. -/
structure NumberWord where
  word : Bytes
  n : ν
  first : ∃ c rest, word = c :: rest ∧ c ∈ ascii "0123456789-"
  clean : ∀ b ∈ word, b ∉ delimChars
  reads : num.str2number word = some n

mutual

/-- A value as it is written. -/
inductive Doc where
  | literal (word : Bytes) (known : word ∈ literals)
  | number (word : NumberWord num)
  | string (s : StringText)
  | array (items : Items)
  | object (members : Members)

/-- What follows `[`. -/
inductive Items where
  | close (blank : Blank)
  | last (before : Blank) (value : Doc) (after : Blank)
  | more (before : Blank) (value : Doc) (after : Blank) (items : Items)

/-- What follows `{`. -/
inductive Members where
  | close (blank : Blank)
  | last (before : Blank) (key : StringText) (colon first : Blank) (value : Doc) (after : Blank)
  | more (before : Blank) (key : StringText) (colon first : Blank) (value : Doc) (after : Blank)
    (members : Members)

end

variable {num}

/-- A key, the colon and what stands around it. -/
def keyText (before : Blank) (key : StringText) (colon first : Blank) : Bytes :=
  before.bytes ++ (key.text ++ (colon.bytes ++ charByte ':' :: first.bytes))

mutual

/-- The text of a value. -/
def Doc.text : Doc num → Bytes
  | .literal word _ => word
  | .number word => word.word
  | .string s => s.text
  | .array items => charByte '[' :: items.text
  | .object members => charByte '{' :: members.text

/-- The text up to `]`. -/
def Items.text : Items num → Bytes
  | .close blank => blank.bytes ++ [charByte ']']
  | .last before value after => before.bytes ++ (value.text ++ (after.bytes ++ [charByte ']']))
  | .more before value after items =>
    before.bytes ++ (value.text ++ (after.bytes ++ charByte ',' :: items.text))

/-- The text up to `}`. -/
def Members.text : Members num → Bytes
  | .close blank => blank.bytes ++ [charByte '}']
  | .last before key colon first value after =>
    keyText before key colon first ++ (value.text ++ (after.bytes ++ [charByte '}']))
  | .more before key colon first value after members =>
    keyText before key colon first ++ (value.text ++ (after.bytes ++ charByte ',' :: members.text))

end

/-! The lengths of the texts, part by part. -/

theorem keyText_length (before : Blank) (key : StringText) (colon first : Blank) :
    (keyText before key colon first).length =
      before.bytes.length + (key.text.length + (colon.bytes.length + (first.bytes.length + 1))) := by
  simp [keyText]

theorem Items.last_length (before : Blank) (value : Doc num) (after : Blank) :
    (Items.last before value after).text.length =
      before.bytes.length + (value.text.length + (after.bytes.length + 1)) := by
  simp [Items.text]

theorem Items.more_length (before : Blank) (value : Doc num) (after : Blank) (items : Items num) :
    (Items.more before value after items).text.length =
      before.bytes.length + (value.text.length + (after.bytes.length + (items.text.length + 1))) := by
  simp [Items.text]

theorem Members.last_length (before : Blank) (key : StringText) (colon first : Blank) (value : Doc num)
    (after : Blank) :
    (Members.last before key colon first value after).text.length =
      (keyText before key colon first).length + (value.text.length + (after.bytes.length + 1)) := by
  simp [Members.text]

theorem Members.more_length (before : Blank) (key : StringText) (colon first : Blank) (value : Doc num)
    (after : Blank) (members : Members num) :
    (Members.more before key colon first value after members).text.length =
      (keyText before key colon first).length +
        (value.text.length + (after.bytes.length + (members.text.length + 1))) := by
  simp [Members.text]

variable [DecidableEq ν]

mutual

/-- The value of a document. -/
def Doc.value : Doc num → Tree ν
  | .literal word _ => literalMap word
  | .number word => .number word.n
  | .string s => .string s.bytes
  | .array items => .table (items.fields emptyFields 1)
  | .object members => .table (members.fields emptyFields)

/-- The items are put under the numbers from `n` on. -/
def Items.fields : Items num → (Value ν → Tree ν) → Nat → Value ν → Tree ν
  | .close _, res, _ => res
  | .last _ value _, res, n => Function.update res (.number (num.ofInt n)) value.value
  | .more _ value _ items, res, n =>
    items.fields (Function.update res (.number (num.ofInt n)) value.value) (n + 1)

/-- The values are put under their keys, one after the other. -/
def Members.fields : Members num → (Value ν → Tree ν) → Value ν → Tree ν
  | .close _, res => res
  | .last _ key _ _ value _, res => Function.update res (.string key.bytes) value.value
  | .more _ key _ _ value _ members, res =>
    members.fields (Function.update res (.string key.bytes) value.value)

end

/-- **A text stands for a value.** -/
def Denotes (num : Numerals ν) (text : Bytes) (value : Tree ν) : Prop :=
  ∃ (before : Blank) (doc : Doc num) (after : Blank),
    text = before.bytes ++ (doc.text ++ after.bytes) ∧ value = doc.value

end Documents

end Bacteria.Json
