/-
**What the decoder accepts, and how it fails.**

* `OwnError` — an error the decoder raises itself: with the line and column of a position in the text or
  just behind it, or for a number above the last character.
* `codepointToUtf8_cases`, `surrogate_range` — `\u` raises no other error.
* `stringLoop_cases`, `parseString_cases` — a string is read, or there is an error.
* `decoding_cases` — so it is with values, items and members: by induction on the fuel, along the calls.
* `decodeText_cases` — every text denotes a value that is returned, or raises an error of the decoder's
  own.
* `decode_returned_iff` — `json.decode` returns exactly the value that its text denotes; `decode_ends` — it
  ends, and its errors say what is wrong.
-/

import Bacteria.Json.Read

namespace Bacteria.Json

open Clib Cursor EncDec Loops Lua

/-- **An error of the decoder's own**: with the line and the column counted up to a position of the text,
or up to one of the two behind its end, or for a number without a character. -/
def OwnError (str : Bytes) (error : DecodeError) : Prop :=
  (∃ msg idx, 0 < idx ∧ idx ≤ str.length + 2 ∧
    error = .located msg (lineCol str idx).1 (lineCol str idx).2) ∨
  ∃ n, 0x10ffff < n ∧ n ≤ 0x111fff ∧ error = .codepoint n

/-- It raises an error of its own. -/
def Fails {α : Type} (str : Bytes) (result : Decoding α) : Prop :=
  ∃ error, result = .raised error ∧ OwnError str error

section Errors

variable {α β : Type} {str : Bytes}

theorem decodeError_fails {idx : Nat} (positive : 0 < idx) (inside : idx ≤ str.length + 2)
    (msg : Bytes) : Fails str (decodeError str idx msg : Decoding α) :=
  ⟨_, rfl, Or.inl ⟨msg, idx, positive, inside, rfl⟩⟩

theorem Fails.bind {first : Decoding α} (fails : Fails str first) (next : α → Decoding β) :
    Fails str (first >>= next) := by
  obtain ⟨error, rfl, own⟩ := fails
  exact ⟨error, rfl, own⟩

/-- A position and the one behind it are places. -/
theorem at_fails {rest : Bytes} {i j : Nat} (at_ : At str i rest) (least : i ≤ j)
    (most : j ≤ i + rest.length + 1) (msg : Bytes) :
    Fails str (decodeError str j msg : Decoding α) := by
  have size := at_.length_eq
  have positive := at_.positive
  exact decodeError_fails (by omega) (by omega) msg

end Errors

/-! ### The characters written as `\u` -/

section Unicode

variable {hex : Bytes}

theorem stringChar_of_range {codes : List Int} (range : ∀ code ∈ codes, 0 ≤ code ∧ code < 256) :
    stringChar codes = .returned (codes.map fun code => UInt8.ofNat code.toNat) := if_pos range

/-- A number has a character, or is above the last one. -/
theorem codepointToUtf8_cases {n : Int} (natural : 0 ≤ n) :
    (∃ character, codepointToUtf8 n = .returned character) ∨
      (0x10ffff < n ∧ codepointToUtf8 n = .raised (.codepoint n)) := by
  rw [codepointToUtf8]
  split_ifs with one two three four
  · exact Or.inl ⟨_, stringChar_of_range (by simp only [List.forall_mem_cons]; simp; omega)⟩
  · exact Or.inl ⟨_, stringChar_of_range (by simp only [List.forall_mem_cons]; simp; omega)⟩
  · exact Or.inl ⟨_, stringChar_of_range (by simp only [List.forall_mem_cons]; simp; omega)⟩
  · exact Or.inl ⟨_, stringChar_of_range (by simp only [List.forall_mem_cons]; simp; omega)⟩
  · exact Or.inr ⟨Int.not_le.mp four, rfl⟩

/-- The first half of a pair is one of 1024 numbers. -/
theorem surrogate_range (four : FourDigits hex) (half : HighHalf hex) :
    0xd800 ≤ hexNumber hex ∧ hexNumber hex < 0xdc00 := by
  obtain ⟨a, b, rest, rfl, inA, inB⟩ := half
  obtain ⟨size, digits⟩ := four
  match rest, size, digits with
  | [c, d], _, digits =>
    have first : ∀ a ∈ ascii "dD", hexValue a = some 13 := by decide
    have second : ∀ b ∈ ascii "89aAbB", (hexValue b).getD 0 < 12 ∧ 8 ≤ (hexValue b).getD 0 ∧
        hexValue b = some ((hexValue b).getD 0) := by decide
    obtain ⟨below, above, isB⟩ := second b inB
    obtain ⟨vc, isC⟩ := hexValue_of_isXDigit (digits c (by simp))
    obtain ⟨vd, isD⟩ := hexValue_of_isXDigit (digits d (by simp))
    have smallC := (hexValue_spec isC).1
    have smallD := (hexValue_spec isD).1
    simp only [hexNumber, hexDigits, first a inA]
    rw [isB]
    simp only [isC, isD]
    omega

/-- **A single escape has a character.** -/
theorem unicode_stands (four : FourDigits hex) :
    ∃ character, codepointToUtf8 (hexNumber hex) = .returned character := by
  have small := (tonumber16_four four).2
  rcases codepointToUtf8_cases (Int.natCast_nonneg (hexNumber hex)) with known | ⟨above, _⟩
  · exact known
  · omega

/-- **A pair has a character**, or is an error of the decoder's own. -/
theorem surrogates_stand {high low str : Bytes} (digits : FourDigits high ∧ FourDigits low)
    (half : HighHalf high) :
    (∃ character, codepointToUtf8
      (((hexNumber high : Int) - 0xd800) * 0x400 + (hexNumber low - 0xdc00) + 0x10000) =
        .returned character) ∨
    Fails str (codepointToUtf8
      (((hexNumber high : Int) - 0xd800) * 0x400 + (hexNumber low - 0xdc00) + 0x10000)) := by
  obtain ⟨least, most⟩ := surrogate_range digits.1 half
  have small := (tonumber16_four digits.2).2
  have natural : 0 ≤ ((hexNumber high : Int) - 0xd800) * 0x400 + (hexNumber low - 0xdc00) + 0x10000 := by
    omega
  rcases codepointToUtf8_cases natural with known | ⟨above, raises⟩
  · exact Or.inl known
  · exact Or.inr ⟨_, raises, Or.inr ⟨_, above, by omega, rfl⟩⟩

end Unicode

/-! ### Strings -/

section Strings

variable {str res done rest : Bytes} {i k j fuel : Nat}

/-- A pair is not taken for a single escape. -/
def Piece.ApartFrom (piece : Piece) (rest : Bytes) : Prop :=
  ∀ hex character digits stands, piece = .unicode hex character digits stands →
    Json.ApartFrom hex rest

/-- Digits are apart from a second half when no pair is found there. -/
theorem apart_of_no_pair {hex rest' : Bytes} (at_ : At str j (hex ++ rest')) (digits : FourDigits hex)
    (noPair : matchAt surrogatePair str j = none) : Json.ApartFrom hex rest' := by
  rintro half low lowDigits ⟨tail, starts⟩
  have pair : matchAt surrogatePair str j = some (hex ++ 92 :: charByte 'u' :: low) :=
    (matchAt_eq_some_iff at_).mpr ⟨⟨tail, by rw [List.append_assoc, starts]⟩,
      forall₂_surrogatePair.mpr ⟨hex, low, rfl, digits, half, lowDigits⟩⟩
  rw [pair] at noPair
  cases noPair

/-- What stands behind `\u`: a character, or an error. -/
theorem unicode_cases (at_ : At str (j + 1) (charByte 'u' :: rest)) :
    (∃ piece rest', 92 :: charByte 'u' :: rest = Piece.text piece ++ rest' ∧ piece.ApartFrom rest') ∨
      ∀ {res k fuel}, charAt str j = some 92 → 0 < j → Fails str (stringLoop str i (fuel + 1) res k j) := by
  have size := at_.length_eq
  have here := at_.charAt_cons
  cases found : (matchAt surrogatePair str (j + 1 + 1)).or (matchAt fourDigits str (j + 1 + 1)) with
  | none =>
    refine Or.inr fun {res k fuel} x positive => ?_
    simp only [stringLoop, x, here, found]
    rw [if_neg (by decide), if_pos trivial, if_pos trivial]
    exact decodeError_fails (by omega) (by omega) _
  | some hex =>
    rcases Option.or_eq_some_iff.mp found with pair | ⟨noPair, four⟩
    · obtain ⟨⟨rest', shape⟩, all⟩ := (matchAt_eq_some_iff at_.next).mp pair
      obtain ⟨high, low, rfl, highDigits, half, lowDigits⟩ := forall₂_surrogatePair.mp all
      rcases @surrogates_stand high low str ⟨highDigits, lowDigits⟩ half with known | fails
      · obtain ⟨character, stands⟩ := known
        refine Or.inl ⟨.surrogates high low character ⟨highDigits, lowDigits⟩ half stands, rest', ?_,
          fun hex character digits stands same => by cases same⟩
        simp [Piece.text, ← shape]
      · refine Or.inr fun {res k fuel} x positive => ?_
        simp only [stringLoop, x, here, found]
        rw [if_neg (by decide), if_pos trivial, if_pos trivial,
          parseUnicodeEscape_pair highDigits lowDigits]
        exact fails.bind _
    · obtain ⟨⟨rest', shape⟩, all⟩ := (matchAt_eq_some_iff at_.next).mp four
      have digits := forall₂_fourDigits.mp all
      obtain ⟨character, stands⟩ := unicode_stands digits
      refine Or.inl ⟨.unicode hex character digits stands, rest', by simp [Piece.text, ← shape],
        fun _ _ _ _ same => ?_⟩
      obtain ⟨rfl, rfl⟩ := Piece.unicode.inj same
      have behind := at_.next
      rw [← shape] at behind
      exact apart_of_no_pair behind digits noPair

/-- What stands behind a backslash and another letter. -/
theorem letter_cases {c : Byte} (at_ : At str (j + 1) (c :: rest)) (isNoU : c ≠ charByte 'u') :
    (∃ piece rest', 92 :: c :: rest = Piece.text piece ++ rest' ∧ piece.ApartFrom rest') ∨
      ∀ {res k fuel}, charAt str j = some 92 → 0 < j → Fails str (stringLoop str i (fuel + 1) res k j) := by
  have size := at_.length_eq
  have here := at_.charAt_cons
  have noU : ¬ some c = some (charByte 'u') := fun same => isNoU (Option.some.inj same)
  by_cases known : c ∈ escapeChars
  · have all : ∀ c ∈ escapeChars, c = charByte 'u' ∨ (escapeCharMapInv.lookup c).isSome := by decide
    obtain ⟨b, stands⟩ := Option.isSome_iff_exists.mp ((all c known).resolve_left isNoU)
    exact Or.inl ⟨.short c b known stands, rest, rfl, fun _ _ _ _ same => by cases same⟩
  · refine Or.inr fun {res k fuel} x positive => ?_
    have unlisted : (some c).filter (fun c => decide (c ∈ escapeChars)) = none := by
      rw [Option.filter_some, if_neg (by simpa using known)]
    simp only [stringLoop, x, here]
    rw [if_neg (by decide), if_pos trivial, if_neg noU]
    simp only [unlisted]
    exact decodeError_fails (by omega) (by omega) _

/-- What stands behind a backslash: a character, or an error. -/
theorem escape_cases (at_ : At str (j + 1) rest) :
    (∃ piece rest', 92 :: rest = Piece.text piece ++ rest' ∧ piece.ApartFrom rest') ∨
      ∀ {res k fuel}, charAt str j = some 92 → 0 < j → Fails str (stringLoop str i (fuel + 1) res k j) := by
  cases rest with
  | nil =>
    refine Or.inr fun {res k fuel} x positive => ?_
    have size := at_.length_eq
    have c := at_.charAt_nil
    have noU : ¬ (none : Option Byte) = some (charByte 'u') := by decide
    simp only [stringLoop, x, c]
    rw [if_neg (by decide), if_pos trivial, if_neg noU]
    exact decodeError_fails (by omega) (by rw [List.length_nil] at size; omega) _
  | cons c rest =>
    by_cases isU : c = charByte 'u'
    · subst isU
      exact unicode_cases at_
    · exact letter_cases at_ isU

/-- **One turn of the loop**: an error, the closing quote, or a character. -/
theorem stringLoop_turn (state : Reading str res k j done rest) (start : 0 < i ∧ i ≤ str.length + 2) :
    Fails str (stringLoop str i (fuel + 1) res k j) ∨
      (∃ tail, rest = 34 :: tail ∧ stringLoop str i (fuel + 1) res k j = .returned (done, j + 1)) ∨
      ∃ piece rest' res' k', rest = Piece.text piece ++ rest' ∧ piece.ApartFrom rest' ∧
        Reading str res' k' (j + piece.text.length) (done ++ piece.bytes) rest' ∧
        stringLoop str i (fuel + 1) res k j =
          stringLoop str i fuel res' k' (j + piece.text.length) := by
  have size := state.here.length_eq
  have positive := state.here.positive
  cases rest with
  | nil =>
    refine Or.inl ?_
    simp only [stringLoop, state.here.charAt_nil]
    exact decodeError_fails start.1 start.2 _
  | cons x rest =>
    have here := state.here.charAt_cons
    by_cases control : x.toNat < 32
    · refine Or.inl ?_
      simp only [stringLoop, here, if_pos control]
      exact decodeError_fails positive (by omega) _
    by_cases backslash : x = 92
    · subst backslash
      rcases escape_cases state.here.next with ⟨piece, rest', shape, apart⟩ | fails
      · rw [shape] at state ⊢
        obtain ⟨res', k', next, turn⟩ := @stringLoop_piece _ _ _ _ i _ _ fuel piece apart state
        exact Or.inr (Or.inr ⟨piece, rest', res', k', rfl, apart, next, turn⟩)
      · exact Or.inl (fails here positive)
    by_cases quote : x = 34
    · subst quote
      refine Or.inr (Or.inl ⟨rest, rfl, ?_⟩)
      simp only [stringLoop, here, state.copy]
      rw [if_neg (by decide), if_neg (by decide), if_pos trivial]
    · have apart : (Piece.plain x ⟨Nat.not_lt.mp control, quote, backslash⟩).ApartFrom rest :=
        fun _ _ _ _ same => by cases same
      obtain ⟨res', k', next, turn⟩ := @stringLoop_piece _ _ _ _ i _ _ fuel _ apart state
      exact Or.inr (Or.inr ⟨_, rest, res', k', rfl, apart, next, turn⟩)

/-- Characters that are apart in the text are so in the string. -/
theorem apart_of_apartFrom {piece : Piece} {pieces : List Piece} {tail : Bytes}
    (apart : piece.ApartFrom (pieces.flatMap Piece.text ++ tail)) : piece.Apart pieces := by
  cases piece with
  | unicode hex character digits stands =>
    cases pieces with
    | nil => trivial
    | cons next pieces =>
      intro half isUnicode
      have apartHere := apart hex character digits stands rfl half
      cases next with
      | plain b printable => exact isUnicode
      | short c b known stands => exact isUnicode
      | unicode low character digits stands =>
        exact apartHere low digits ⟨pieces.flatMap Piece.text ++ tail, by simp [Piece.text]⟩
      | surrogates low other character digits half stands =>
        exact apartHere low digits.1 ⟨92 :: charByte 'u' :: other ++ (pieces.flatMap Piece.text ++ tail),
          by simp [Piece.text]⟩
  | _ => trivial

/-- **The loop reads a string**, or there is an error. -/
theorem stringLoop_cases (state : Reading str res k j done rest) (start : 0 < i ∧ i ≤ str.length + 2)
    (enough : rest.length < fuel) :
    Fails str (stringLoop str i fuel res k j) ∨
      ∃ pieces tail, Separate pieces ∧ rest = pieces.flatMap Piece.text ++ 34 :: tail ∧
        stringLoop str i fuel res k j = .returned
          (done ++ pieces.flatMap Piece.bytes, j + (pieces.flatMap Piece.text).length + 1) := by
  induction fuel generalizing res k j done rest with
  | zero => exact absurd enough (Nat.not_lt_zero _)
  | succ fuel ih =>
    rcases @stringLoop_turn _ _ _ _ _ _ _ fuel state start with fails | ⟨tail, shape, ends⟩ |
      ⟨piece, rest', res', k', shape, apart, next, turn⟩
    · exact Or.inl fails
    · exact Or.inr ⟨[], tail, trivial, shape, by rw [ends]; simp⟩
    · have positive := piece_text_pos piece
      rw [shape, List.length_append] at enough
      rcases ih next (by omega) with fails | ⟨pieces, tail, separate, more, ends⟩
      · exact Or.inl (turn ▸ fails)
      · refine Or.inr ⟨piece :: pieces, tail, ⟨apart_of_apartFrom (more ▸ apart), separate⟩, ?_, ?_⟩
        · rw [shape, more, List.flatMap_cons, List.append_assoc]
        · rw [turn, ends, List.flatMap_cons, List.flatMap_cons, List.length_append, List.append_assoc]
          simp only [Nat.add_assoc]

/-- **So does `parse_string`**, behind an opening quote. -/
theorem parseString_cases (at_ : At str i (34 :: rest)) :
    Fails str (parseString str i) ∨
      ∃ (s : StringText) (tail : Bytes), 34 :: rest = s.text ++ tail ∧
        parseString str i = .returned (s.bytes, i + s.text.length) := by
  have size := at_.length_eq
  have positive := at_.positive
  rw [List.length_cons] at size
  rcases stringLoop_cases (Reading.fresh at_.next) ⟨positive, by omega⟩
    (show rest.length < str.length + 1 by omega) with fails | ⟨pieces, tail, separate, shape, _⟩
  · exact Or.inl fails
  · have text : 34 :: rest = (StringText.mk pieces separate).text ++ tail := by
      simp [StringText.text, shape]
    exact Or.inr ⟨⟨pieces, separate⟩, tail, text, parseString_read _ (text ▸ at_)⟩

end Strings

/-! ### All values -/

section Values

variable {ν : Type} {num : Numerals ν} {str rest : Bytes} {i fuel : Nat}

/-- `next_char` passes over white space. -/
theorem skip_blank (at_ : At str i rest) :
    ∃ (blank : Blank) (left : Bytes), rest = blank.bytes ++ left ∧
      nextChar str i spaceChars true = i + blank.bytes.length ∧ At str (i + blank.bytes.length) left := by
  obtain ⟨skipped, left, shape, stop, there, unwanted, _⟩ :=
    exists_skipTo (fun c => decide (c ∈ spaceChars) != true) at_
  exact ⟨⟨skipped, fun b member => by simpa using unwanted b member⟩, left, shape, stop, there⟩

/-- Or over a word. -/
theorem skip_word (at_ : At str i rest) :
    ∃ word left, rest = word ++ left ∧ nextChar str i delimChars false = i + word.length ∧
      sub str i (i + word.length - 1) = word ∧ ∀ b ∈ word, b ∉ delimChars := by
  obtain ⟨word, left, shape, stop, _, unwanted, _⟩ :=
    exists_skipTo (fun c => decide (c ∈ delimChars) != false) at_
  exact ⟨word, left, shape, stop, sub_word (shape ▸ at_), fun b member => by
    simpa using unwanted b member⟩

/-- What starts with a character that is no delimiter is a word with this character first. -/
theorem word_first {c : Byte} {word left : Bytes} (shape : c :: rest = word ++ left)
    (at_ : At str i (c :: rest)) (stop : nextChar str i delimChars false = i + word.length)
    (noDelim : c ∉ delimChars) : ∃ tail, word = c :: tail := by
  cases word with
  | nil =>
    have behind := skipTo_eq (fun c => decide (c ∈ delimChars) != false) at_
    rw [List.takeWhile_cons] at behind
    rw [nextChar, behind] at stop
    simp [noDelim] at stop
  | cons b tail => exact ⟨tail, by rw [(List.cons.inj shape).1]⟩

theorem parseNumber_cases {c : Byte} (digit : c ∈ ascii "0123456789-") (at_ : At str i (c :: rest)) :
    Fails str (parseNumber num str i) ∨
      ∃ (word : NumberWord num) (tail : Bytes), c :: rest = word.word ++ tail ∧
        parseNumber num str i = .returned (.number word.n, i + word.word.length) := by
  have noDelims : ∀ c ∈ ascii "0123456789-", c ∉ delimChars := by decide
  obtain ⟨word, left, shape, stop, same, clean⟩ := skip_word at_
  obtain ⟨tail, first⟩ := word_first shape at_ stop (noDelims c digit)
  cases reads : num.str2number word with
  | none =>
    refine Or.inl ?_
    simp only [parseNumber, stop, same, reads]
    exact at_fails at_ (Nat.le_refl i) (by omega) _
  | some n =>
    refine Or.inr ⟨⟨word, n, ⟨c, tail, first, digit⟩, clean, reads⟩, left, shape, ?_⟩
    simp only [parseNumber, stop, same, reads]

theorem parseLiteral_cases (at_ : At str i rest) :
    Fails str (@parseLiteral ν str i) ∨
      ∃ word ∈ literals, ∃ tail, rest = word ++ tail ∧
        @parseLiteral ν str i = .returned (literalMap word, i + word.length) := by
  obtain ⟨word, left, shape, stop, same, _⟩ := skip_word at_
  by_cases known : word ∈ literals
  · refine Or.inr ⟨word, known, left, shape, ?_⟩
    simp only [parseLiteral, stop, same, if_pos known]
  · refine Or.inl ?_
    simp only [parseLiteral, stop, same, if_neg known]
    exact at_fails at_ (Nat.le_refl i) (by omega) _

variable [DecidableEq ν]

/-- What is to be shown of `parse` with this fuel. -/
def ParseCases (num : Numerals ν) (str : Bytes) (fuel : Nat) : Prop :=
  ∀ {i rest}, At str i rest → 2 * rest.length + 1 ≤ fuel →
    Fails str (parse num str fuel i) ∨
      ∃ (doc : Doc num) (tail : Bytes), rest = doc.text ++ tail ∧
        parse num str fuel i = .returned (doc.value, i + doc.text.length)

/-- Of the loop over items. -/
def ArrayCases (num : Numerals ν) (str : Bytes) (fuel : Nat) : Prop :=
  ∀ {res n i rest}, At str i rest → 2 * rest.length + 2 ≤ fuel →
    Fails str (arrayLoop num str fuel res n i) ∨
      ∃ (items : Items num) (tail : Bytes), rest = items.text ++ tail ∧
        arrayLoop num str fuel res n i =
          .returned (.table (items.fields res n), i + items.text.length)

/-- And of the loop over members. -/
def ObjectCases (num : Numerals ν) (str : Bytes) (fuel : Nat) : Prop :=
  ∀ {res i rest}, At str i rest → 2 * rest.length + 2 ≤ fuel →
    Fails str (objectLoop num str fuel res i) ∨
      ∃ (members : Members num) (tail : Bytes), rest = members.text ++ tail ∧
        objectLoop num str fuel res i =
          .returned (.table (members.fields res), i + members.text.length)

/-- A value, from the loops with less fuel. -/
theorem parse_cases (arrays : ArrayCases num str fuel) (objects : ObjectCases num str fuel) :
    ParseCases num str (fuel + 1) := by
  intro i rest at_ enough
  cases rest with
  | nil =>
    refine Or.inl ?_
    simp only [parse, at_.charAt_nil]
    exact at_fails at_ (Nat.le_refl i) (by omega) _
  | cons chr rest =>
    rw [List.length_cons] at enough
    have here := at_.charAt_cons
    by_cases quote : chr = 34
    · subst quote
      simp only [parse, here, if_true]
      rcases parseString_cases at_ with fails | ⟨s, tail, shape, ends⟩
      · exact Or.inl (fails.bind _)
      · exact Or.inr ⟨.string s, tail, shape, by rw [ends]; rfl⟩
    by_cases digit : chr ∈ ascii "0123456789-"
    · simp only [parse, here, if_neg quote, if_pos digit]
      rcases @parseNumber_cases _ num _ _ _ _ digit at_ with fails | ⟨word, tail, shape, ends⟩
      · exact Or.inl fails
      · exact Or.inr ⟨.number word, tail, shape, ends⟩
    by_cases letter : chr ∈ ascii "tfn"
    · simp only [parse, here, if_neg quote, if_neg digit, if_pos letter]
      rcases @parseLiteral_cases ν _ _ _ at_ with fails | ⟨word, known, tail, shape, ends⟩
      · exact Or.inl fails
      · exact Or.inr ⟨.literal word known, tail, shape, ends⟩
    by_cases bracket : chr = charByte '['
    · simp only [parse, here, if_neg quote, if_neg digit, if_neg letter, if_pos bracket]
      rcases @arrays emptyFields 1 _ _ at_.next (by omega) with fails | ⟨items, tail, shape, ends⟩
      · exact Or.inl fails
      · refine Or.inr ⟨.array items, tail, by rw [bracket, shape]; rfl, ?_⟩
        rw [ends, Doc.value, Doc.text, List.length_cons, Nat.add_comm items.text.length, Nat.add_assoc]
    by_cases brace : chr = charByte '{'
    · simp only [parse, here, if_neg quote, if_neg digit, if_neg letter, if_neg bracket, if_pos brace]
      rcases @objects emptyFields _ _ at_.next (by omega) with fails | ⟨members, tail, shape, ends⟩
      · exact Or.inl fails
      · refine Or.inr ⟨.object members, tail, by rw [brace, shape]; rfl, ?_⟩
        rw [ends, Doc.value, Doc.text, List.length_cons, Nat.add_comm members.text.length,
          Nat.add_assoc]
    · refine Or.inl ?_
      simp only [parse, here, if_neg quote, if_neg digit, if_neg letter, if_neg bracket, if_neg brace]
      exact at_fails at_ (Nat.le_refl i) (by omega) _

/-- Behind the white space that follows a value: the position, and what the character there can be. -/
theorem after_cases {left : Bytes} (at_ : At str i left) (stop other : Byte) (msg : Bytes) :
    (∃ tail, left = stop :: tail) ∨ (∃ tail, left = other :: tail ∧ ¬ charAt str i = some stop) ∨
      (¬ charAt str i = some stop ∧ ¬ charAt str i = some other ∧
        ∀ {α : Type}, Fails str (decodeError str (i + 1) msg : Decoding α)) := by
  have fails : ∀ {α : Type}, Fails str (decodeError str (i + 1) msg : Decoding α) :=
    at_fails at_ (Nat.le_succ i) (by omega) msg
  cases left with
  | nil =>
    rw [at_.charAt_nil]
    exact Or.inr (Or.inr ⟨fun same => (by cases same), fun same => (by cases same), fails⟩)
  | cons c tail =>
    rw [at_.charAt_cons]
    by_cases isStop : c = stop
    · exact Or.inl ⟨tail, by rw [isStop]⟩
    by_cases isOther : c = other
    · exact Or.inr (Or.inl ⟨tail, by rw [isOther], fun same => isStop (Option.some.inj same)⟩)
    · exact Or.inr (Or.inr ⟨fun same => isStop (Option.some.inj same),
        fun same => isOther (Option.some.inj same), fails⟩)

/-- Items, from a value and items with less fuel. -/
theorem array_cases (values : ParseCases num str fuel) (arrays : ArrayCases num str fuel) :
    ArrayCases num str (fuel + 1) := by
  intro res n i rest at_ enough
  obtain ⟨before, left, rfl, next, there⟩ := skip_blank at_
  rw [List.length_append] at enough
  by_cases closed : charAt str (i + before.bytes.length) = some (charByte ']')
  · obtain ⟨tail, rfl⟩ := there.of_charAt_some closed
    refine Or.inr ⟨.close before, tail, by simp [Items.text], ?_⟩
    simp only [arrayLoop, next, closed, if_true]
    rw [Items.fields, Items.text, List.length_append, List.length_singleton, Nat.add_assoc]
  simp only [arrayLoop, next, if_neg closed]
  rcases values there (by omega) with fails | ⟨doc, left, rfl, read⟩
  · exact Or.inl (fails.bind _)
  obtain ⟨after, left, rfl, next', there'⟩ := skip_blank there.skip
  simp only [read, Attempt.returned_bind, next', List.length_append] at enough ⊢
  rcases after_cases there' (charByte ']') (charByte ',') (ascii "expected ']' or ','") with
    ⟨tail, rfl⟩ | ⟨left, rfl, noStop⟩ | ⟨noStop, noOther, fails⟩
  · refine Or.inr ⟨.last before doc after, tail, by simp [Items.text], ?_⟩
    rw [if_pos there'.charAt_cons]
    simp only [Items.fields, Items.text, List.length_append, List.length_singleton, Nat.add_assoc]
  · rw [if_neg noStop, if_pos there'.charAt_cons]
    rw [List.length_cons] at enough
    rcases @arrays (Function.update res (.number (num.ofInt n)) doc.value) (n + 1) _ _ there'.next
      (by omega) with fails | ⟨items, tail, rfl, ends⟩
    · exact Or.inl fails
    · refine Or.inr ⟨.more before doc after items, tail, by simp [Items.text], ?_⟩
      rw [ends]
      simp only [Items.fields, Items.text, List.length_append, List.length_cons, Nat.add_assoc,
        Nat.add_comm 1]
  · rw [if_neg noStop, if_neg noOther]
    exact Or.inl fails

/-- Members, from a value and members with less fuel. -/
theorem object_cases (values : ParseCases num str fuel) (objects : ObjectCases num str fuel) :
    ObjectCases num str (fuel + 1) := by
  intro res i rest at_ enough
  obtain ⟨before, left, rfl, next, there⟩ := skip_blank at_
  rw [List.length_append] at enough
  by_cases closed : charAt str (i + before.bytes.length) = some (charByte '}')
  · obtain ⟨tail, rfl⟩ := there.of_charAt_some closed
    refine Or.inr ⟨.close before, tail, by simp [Members.text], ?_⟩
    simp only [objectLoop, next, closed, if_true]
    rw [Members.fields, Members.text, List.length_append, List.length_singleton, Nat.add_assoc]
  by_cases quote : charAt str (i + before.bytes.length) = some 34
  swap
  · simp only [objectLoop, next, if_neg closed, ne_eq, quote, not_false_eq_true, if_true]
    exact Or.inl (at_fails there (Nat.le_refl _) (by omega) _)
  have noBrace : ¬ some (34 : Byte) = some (charByte '}') := by decide
  simp only [objectLoop, next, ne_eq, quote, if_neg noBrace, not_true_eq_false, if_false]
  obtain ⟨tail, rfl⟩ := there.of_charAt_some quote
  rcases parseString_cases there with fails | ⟨key, left, shape, readKey⟩
  · exact Or.inl (fails.bind _)
  rw [shape] at there enough at_ ⊢
  obtain ⟨colon, left, rfl, next', there'⟩ := skip_blank there.skip
  simp only [readKey, Attempt.returned_bind, next', List.length_append] at enough ⊢
  by_cases isColon : charAt str (i + before.bytes.length + key.text.length + colon.bytes.length) =
      some (charByte ':')
  swap
  · rw [if_pos isColon]
    exact Or.inl (at_fails there' (Nat.le_refl _) (by omega) _)
  rw [if_neg (not_not.mpr isColon)]
  obtain ⟨left, rfl⟩ := there'.of_charAt_some isColon
  obtain ⟨first, left, rfl, next'', there''⟩ := skip_blank there'.next
  rw [next'']
  rw [List.length_cons, List.length_append] at enough
  rcases values there'' (by omega) with fails | ⟨doc, left, rfl, read⟩
  · exact Or.inl (fails.bind _)
  obtain ⟨after, left, rfl, next''', there'''⟩ := skip_blank there''.skip
  simp only [read, Attempt.returned_bind, next''', List.length_append] at enough ⊢
  rcases after_cases there''' (charByte '}') (charByte ',') (ascii "expected '\x7d' or ','") with
    ⟨tail, rfl⟩ | ⟨left, rfl, noStop⟩ | ⟨noStop, noOther, fails⟩
  · refine Or.inr ⟨.last before key colon first doc after, tail, by simp [Members.text, keyText], ?_⟩
    rw [if_pos there'''.charAt_cons, Members.fields, Members.last_length, keyText_length]
    simp only [Nat.add_assoc, Nat.add_comm 1]
  · rw [if_neg noStop, if_pos there'''.charAt_cons]
    rw [List.length_cons] at enough
    rcases @objects (Function.update res (.string key.bytes) doc.value) _ _ there'''.next
      (by omega) with fails | ⟨members, tail, rfl, ends⟩
    · exact Or.inl fails
    · refine Or.inr ⟨.more before key colon first doc after members, tail,
        by simp [Members.text, keyText], ?_⟩
      rw [ends, Members.fields, Members.more_length, keyText_length]
      simp only [Nat.add_assoc, Nat.add_comm 1]
  · rw [if_neg noStop, if_neg noOther]
    exact Or.inl fails

/-- **All three**, for every fuel. -/
theorem decoding_cases (num : Numerals ν) (str : Bytes) (fuel : Nat) :
    ParseCases num str fuel ∧ ArrayCases num str fuel ∧ ObjectCases num str fuel := by
  induction fuel with
  | zero =>
    refine ⟨fun {i rest} _ enough => ?_, fun {res n i rest} _ enough => ?_,
      fun {res i rest} _ enough => ?_⟩ <;> omega
  | succ fuel ih =>
    obtain ⟨values, arrays, objects⟩ := ih
    exact ⟨parse_cases arrays objects, array_cases values arrays, object_cases values objects⟩

/-- **Every text** denotes the value that is returned, or there is an error of the decoder's own. -/
theorem decodeText_cases (num : Numerals ν) (text : Bytes) {fuel : Nat}
    (enough : 2 * text.length + 1 ≤ fuel) :
    Fails text (decodeText num fuel text) ∨
      ∃ value, Denotes num text value ∧ decodeText num fuel text = .returned value := by
  obtain ⟨before, left, shape, next, there⟩ := skip_blank (At.start text)
  have size := congrArg List.length shape
  rw [List.length_append] at size
  simp only [decodeText, next]
  rcases (decoding_cases num text fuel).1 there (by omega) with fails | ⟨doc, left, rfl, read⟩
  · exact Or.inl (fails.bind _)
  obtain ⟨after, left, rfl, next', there'⟩ := skip_blank there.skip
  simp only [read, Attempt.returned_bind, next']
  have last := there'.length_eq
  cases left with
  | nil =>
    rw [List.length_nil] at last
    rw [if_neg (by omega)]
    refine Or.inr ⟨doc.value, ⟨before, doc, after, ?_, rfl⟩, rfl⟩
    rwa [List.append_nil] at shape
  | cons c left =>
    rw [List.length_cons] at last
    rw [if_pos (by omega)]
    exact Or.inl (at_fails there' (Nat.le_refl _) (by omega) _)

theorem decodeText_returned_iff (num : Numerals ν) (text : Bytes) {fuel : Nat}
    (enough : 2 * text.length + 1 ≤ fuel) (value : Tree ν) :
    decodeText num fuel text = .returned value ↔ Denotes num text value := by
  refine ⟨fun returned => ?_, fun denotes => decodeText_read denotes enough⟩
  rcases decodeText_cases num text enough with ⟨error, raises, _⟩ | ⟨_, denotes, same⟩
  · rw [raises] at returned
    cases returned
  · rw [same] at returned
    exact Attempt.returned.inj returned ▸ denotes

/-- The texts that raise an error denote no value. -/
theorem not_denotes_of_fails {text : Bytes} {fuel : Nat} (enough : 2 * text.length + 1 ≤ fuel)
    (fails : Fails text (decodeText num fuel text)) (value : Tree ν) : ¬ Denotes num text value := by
  intro denotes
  obtain ⟨error, raised, _⟩ := fails
  rw [decodeText_read denotes enough] at raised
  cases raised

/-- **`json.decode` returns exactly the value that its text denotes.** -/
theorem decode_returned_iff (num : Numerals ν) (objectType : Nat → Bytes) {fuel : Nat} (v : Value ν)
    (enough : ∀ text, v = .string text → 2 * text.length + 1 ≤ fuel) (value : Tree ν) :
    decode num objectType fuel v = .returned value ↔
      ∃ text, v = .string text ∧ Denotes num text value := by
  cases v with
  | string text =>
    rw [decode, decodeText_returned_iff num text (enough text rfl)]
    constructor
    · exact fun denotes => ⟨text, rfl, denotes⟩
    · rintro ⟨_, same, denotes⟩
      exact Value.string.inj same ▸ denotes
  | _ =>
    constructor
    · intro returned
      cases returned
    · rintro ⟨_, same, _⟩
      cases same

/-- A comma before the closing bracket is read over. -/
theorem decode_trailing_comma :
    decode Numerals.integers (fun _ => []) 20 (.string (ascii "[true,]")) =
        .returned (.table (Function.update emptyFields (.number 1) (.boolean true))) ∧
      ∃ text, (.string (ascii "[true,]") : Value Int) = .string text ∧ Denotes Numerals.integers text
        (.table (Function.update emptyFields (.number 1) (.boolean true))) :=
  have read := rfl
  ⟨read, (decode_returned_iff Numerals.integers (fun _ => []) (.string (ascii "[true,]"))
    (fun _ same => Value.string.inj same ▸ by decide) _).mp read⟩

/-- **`json.decode` ends for every value**, and the errors are its own: the argument is no string, or its
text denotes nothing, and the error says where, or which number is no character. -/
theorem decode_ends (num : Numerals ν) (objectType : Nat → Bytes) {fuel : Nat} (v : Value ν)
    (enough : ∀ text, v = .string text → 2 * text.length + 1 ≤ fuel) :
    (∃ value, decode num objectType fuel v = .returned value) ∨
      ∃ error, decode num objectType fuel v = .raised error ∧
        ((isString v = false ∧ error = .argument (Value.typeName objectType v)) ∨
          ∃ text, v = .string text ∧ OwnError text error ∧ ∀ value, ¬ Denotes num text value) := by
  cases v with
  | string text =>
    rcases decodeText_cases num text (enough text rfl) with fails | ⟨value, _, returned⟩
    · have nothing := not_denotes_of_fails (enough text rfl) fails
      obtain ⟨error, raised, own⟩ := fails
      exact Or.inr ⟨error, raised, Or.inr ⟨text, rfl, own, nothing⟩⟩
    · exact Or.inl ⟨value, returned⟩
  | _ => exact Or.inr ⟨_, rfl, Or.inl ⟨rfl, rfl⟩⟩

/-- A text without a comma: the error names the place. -/
theorem decode_missing_comma :
    (∃ value, decode Numerals.integers (fun _ => []) 20 (.string (ascii "[1 2]")) = .returned value) ∨
      ∃ error, decode Numerals.integers (fun _ => []) 20 (.string (ascii "[1 2]")) = .raised error ∧
        ((isString (.string (ascii "[1 2]") : Value Int) = false ∧
            error = .argument (Value.typeName (fun _ => []) (.string (ascii "[1 2]") : Value Int))) ∨
          ∃ text, (.string (ascii "[1 2]") : Value Int) = .string text ∧ OwnError text error ∧
            ∀ value, ¬ Denotes Numerals.integers text value) :=
  decode_ends Numerals.integers (fun _ => []) (.string (ascii "[1 2]"))
    fun _ same => Value.string.inj same ▸ by decide

end Values

end Bacteria.Json
