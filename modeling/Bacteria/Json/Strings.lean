/-
**Strings of a document, as `parse_string` reads them.**

* `tonumber16_four`, `parseUnicodeEscape_four`, `parseUnicodeEscape_pair` — the digits behind `\u`.
* `matchAt_eq_some_iff` — what a pattern finds at a position.
* `stringLoop_piece` — the loop passes over one character, whatever follows it.
* `parseString_read` — it reads the whole string, up to its closing quote.
-/

import Bacteria.EncDec.HexStrict
import Bacteria.Json.Grammar
import Mathlib.Data.List.Forall2

namespace Bacteria.Json

open Clib Cursor EncDec Loops

/-! ### Hexadecimal digits -/

section Digits

variable {hex high low rest : Bytes} {a b : Byte}

theorem mem_of_toNat {set : List Byte} (code : b.toNat ∈ set.map UInt8.toNat) : b ∈ set := by
  obtain ⟨other, member, same⟩ := List.mem_map.mp code
  exact UInt8.toNat_inj.mp same ▸ member

theorem hexValue_of_isXDigit (digit : isXDigit b = true) :
    ∃ value, hexValue b = some value :=
  Option.isSome_iff_exists.mp digit

/-- Digits are read to the end. -/
theorem hexDigits_of_digits (digits : ∀ b ∈ hex, isXDigit b = true) (value count : Nat) :
    ∃ number, hexDigits value count hex = (number, count + hex.length, []) ∧
      number < (value + 1) * 16 ^ hex.length := by
  induction hex generalizing value count with
  | nil => exact ⟨value, rfl, by simp⟩
  | cons b hex ih =>
    obtain ⟨digit, known⟩ := hexValue_of_isXDigit (digits b List.mem_cons_self)
    have small := (hexValue_spec known).1
    obtain ⟨number, read, bound⟩ :=
      ih (fun d member => digits d (List.mem_cons_of_mem _ member)) (16 * value + digit) (count + 1)
    refine ⟨number, ?_, lt_of_lt_of_le bound ?_⟩
    · simp only [hexDigits, known, read, List.length_cons]
      rw [Nat.add_assoc, Nat.add_comm 1]
    · rw [List.length_cons, Nat.pow_succ, Nat.mul_comm (16 ^ hex.length), ← Nat.mul_assoc]
      exact Nat.mul_le_mul_right _ (by omega)

/-- **Four digits are a number**, and one below 65536. -/
theorem tonumber16_four (four : FourDigits hex) :
    tonumber16 hex = some (hexNumber hex) ∧ hexNumber hex < 65536 := by
  obtain ⟨size, digits⟩ := four
  obtain ⟨number, read, bound⟩ := hexDigits_of_digits digits 0 0
  have value : hexNumber hex = number := by rw [hexNumber, read]
  rw [size] at bound read
  match hex, size, digits with
  | [a, b, c, d], _, digits =>
    have each : ∀ x ∈ [a, b, c, d], ∃ v, hexValue x = some v := fun x member =>
      hexValue_of_isXDigit (digits x member)
    obtain ⟨va, isA⟩ := each a (by simp)
    obtain ⟨_, noBlank, noMinus, noPlus, _⟩ := hexValue_spec isA
    have noNul : (0 : Byte) ∉ [a, b, c, d] := fun member => by
      obtain ⟨v, zero⟩ := each 0 member
      exact absurd zero (by simp [hexValue])
    have noPrefix : ¬ (a = 48 ∧ (b = 120 ∨ b = 88) ∧ (hexValue c).isSome) := by
      rintro ⟨_, isX, _⟩
      obtain ⟨v, isB⟩ := each b (by simp)
      rcases isX with rfl | rfl <;> exact absurd isB (by simp [hexValue])
    have whole : (cstr [a, b, c, d]).bytes = [a, b, c, d] := (cstr_eq_iff _).mpr noNul
    have unsigned : strtoul16 [a, b, c, d] = some (number, []) := by
      simp only [strtoul16, List.dropWhile_cons, noBlank, Bool.false_eq_true, if_false,
        if_neg noMinus, if_neg noPlus, skipPrefix, if_neg noPrefix, read]
      rw [if_neg (by omega), if_neg (by omega)]
    rw [tonumber16, whole, unsigned, value]
    exact ⟨rfl, bound⟩

/-- What `\u` and four digits stand for. -/
theorem parseUnicodeEscape_four (four : FourDigits hex) :
    parseUnicodeEscape hex = codepointToUtf8 (hexNumber hex) := by
  have first : sub hex 1 4 = hex := by
    rw [sub, List.take_of_length_le (le_of_eq four.1), Nat.sub_self, List.drop_zero]
  have second : sub hex 7 10 = [] := by
    rw [sub, List.drop_eq_nil_of_le]
    rw [List.length_take, four.1]
    decide
  have none : tonumber16 [] = none := rfl
  simp only [parseUnicodeEscape, first, second, (tonumber16_four four).1, none]

/-- What a pair stands for. -/
theorem parseUnicodeEscape_pair (one : FourDigits high) (other : FourDigits low) :
    parseUnicodeEscape (high ++ 92 :: charByte 'u' :: low) = codepointToUtf8
      (((hexNumber high : Int) - 0xd800) * 0x400 + (hexNumber low - 0xdc00) + 0x10000) := by
  have start := At.start (high ++ 92 :: charByte 'u' :: low)
  have first : sub (high ++ 92 :: charByte 'u' :: low) 1 4 = high :=
    start.sub_eq (by rw [one.1])
  have between : At (high ++ 92 :: charByte 'u' :: low) 7 (low ++ []) := by
    have behind := start.skip.next.next
    rw [one.1] at behind
    rwa [List.append_nil]
  have second : sub (high ++ 92 :: charByte 'u' :: low) 7 10 = low :=
    between.sub_eq (by rw [other.1])
  simp only [parseUnicodeEscape, first, second, (tonumber16_four one).1, (tonumber16_four other).1]

end Digits

/-! ### Patterns -/

section Patterns

variable {pattern : List (Byte → Bool)} {str rest found hex : Bytes} {i : Nat}

/-- **What a pattern finds**: a first part of the rest, with a character for each class. -/
theorem matchAt_eq_some_iff (here : At str i rest) :
    matchAt pattern str i = some found ↔
      found <+: rest ∧ List.Forall₂ (fun is b => is b = true) pattern found := by
  have classes : ∀ {pattern : List (Byte → Bool)} {found : Bytes},
      (found.length = pattern.length ∧ (List.zipWith (· ·) pattern found).all id) ↔
        List.Forall₂ (fun is b => is b = true) pattern found := by
    intro pattern
    induction pattern with
    | nil =>
      intro found
      rw [List.forall₂_nil_left_iff]
      simp
    | cons is pattern ih =>
      intro found
      cases found with
      | nil => exact iff_of_false (fun both => by cases both.1) (fun all => by cases all)
      | cons b found =>
        rw [List.forall₂_cons, ← ih]
        simp only [List.length_cons, Nat.add_right_cancel_iff, List.zipWith_cons_cons, List.all_cons,
          id, Bool.and_eq_true]
        tauto
  have taken : rest.take pattern.length <+: rest := List.take_prefix _ _
  simp only [matchAt, here.drop_eq, classes]
  constructor
  · intro matches_
    split at matches_
    · next all =>
      obtain rfl := Option.some.inj matches_
      exact ⟨taken, all⟩
    · cases matches_
  · rintro ⟨first, all⟩
    have same : rest.take pattern.length = found := by
      rw [all.length_eq]
      exact (List.prefix_iff_eq_take.mp first).symm
    rw [same, if_pos all]

/-- Four digits are what `%x%x%x%x` stands for. -/
theorem forall₂_fourDigits :
    List.Forall₂ (fun is b => is b = true) fourDigits hex ↔ FourDigits hex := by
  rw [fourDigits, FourDigits]
  constructor
  · intro all
    refine ⟨all.length_eq.symm, fun b member => ?_⟩
    obtain ⟨k, inside, rfl⟩ := List.getElem_of_mem member
    have digit := List.forall₂_iff_get.mp all
    have place : k < (List.replicate 4 isXDigit).length := by rwa [all.length_eq]
    have value := digit.2 k place inside
    rwa [List.get_eq_getElem, List.getElem_replicate] at value
  · rintro ⟨size, digits⟩
    refine List.forall₂_iff_get.mpr ⟨by rw [List.length_replicate, size], fun k place inside => ?_⟩
    rw [List.get_eq_getElem, List.getElem_replicate]
    exact digits _ (List.getElem_mem inside)

/-- A pair: a first half, `\u` and four digits. -/
theorem forall₂_surrogatePair :
    List.Forall₂ (fun is b => is b = true) surrogatePair found ↔
      ∃ high low, found = high ++ 92 :: charByte 'u' :: low ∧ FourDigits high ∧ HighHalf high ∧
        FourDigits low := by
  have backslash : ∀ b : Byte, oneOf [92] b = true ↔ b = 92 := by simp [oneOf]
  have letter : ∀ b : Byte, oneOf (ascii "u") b = true ↔ b = charByte 'u' := by
    intro b
    have single : ascii "u" = [charByte 'u'] := rfl
    simp [oneOf, single]
  have firstDigit : ∀ b ∈ ascii "dD", isXDigit b = true := by decide
  have secondDigit : ∀ b ∈ ascii "89aAbB", isXDigit b = true := by decide
  constructor
  · intro all
    simp only [surrogatePair, List.cons_append, List.nil_append] at all
    obtain _ | ⟨isA, all⟩ := all
    obtain _ | ⟨isB, all⟩ := all
    obtain _ | ⟨isC, all⟩ := all
    obtain _ | ⟨isD, all⟩ := all
    obtain _ | ⟨isE, all⟩ := all
    obtain _ | ⟨isF, all⟩ := all
    rename_i a b c d e f low
    obtain rfl := (backslash e).mp isE
    obtain rfl := (letter f).mp isF
    have inA : a ∈ ascii "dD" := of_decide_eq_true isA
    have inB : b ∈ ascii "89aAbB" := of_decide_eq_true isB
    refine ⟨[a, b, c, d], low, rfl, ⟨rfl, ?_⟩, ⟨a, b, [c, d], rfl, inA, inB⟩,
      forall₂_fourDigits.mp all⟩
    simp only [List.forall_mem_cons]
    exact ⟨firstDigit a inA, secondDigit b inB, isC, isD, fun _ member => absurd member List.not_mem_nil⟩
  · rintro ⟨high, low, rfl, four, ⟨a, b, rest, rfl, inA, inB⟩, other⟩
    match rest, four with
    | [c, d], four =>
      have digits := four.2
      simp only [List.forall_mem_cons] at digits
      exact .cons (decide_eq_true inA) (.cons (decide_eq_true inB) (.cons digits.2.2.1
        (.cons digits.2.2.2.1 (.cons ((backslash 92).mpr rfl) (.cons ((letter _).mpr rfl)
          (forall₂_fourDigits.mpr other))))))

end Patterns

/-! ### The loop -/

/-- **Where the loop stands**: it has decoded `done`, a last part of it is still to be copied, and from
`j` on the text is `rest`. -/
def Reading (str res : Bytes) (k j : Nat) (done rest : Bytes) : Prop :=
  ∃ copied, At str k (copied ++ rest) ∧ j = k + copied.length ∧ res ++ copied = done

/-- No pair begins with these digits when this text follows. -/
def ApartFrom (hex rest : Bytes) : Prop :=
  HighHalf hex → ∀ low, FourDigits low → ¬ 92 :: charByte 'u' :: low <+: rest

section Loop

variable {str res done rest hex : Bytes} {i k j fuel : Nat}

namespace Reading

theorem here (state : Reading str res k j done rest) : At str j rest := by
  obtain ⟨copied, at_, rfl, _⟩ := state
  exact at_.skip

/-- Nothing is left to be copied. -/
theorem fresh (at_ : At str j rest) : Reading str done j j done rest :=
  ⟨[], at_, rfl, List.append_nil done⟩

theorem copy (state : Reading str res k j done rest) : res ++ sub str k (j - 1) = done := by
  obtain ⟨copied, at_, rfl, rfl⟩ := state
  have positive := at_.positive
  rw [at_.sub_eq (by omega)]

/-- A character that stands for itself. -/
theorem plain {b : Byte} (state : Reading str res k j done (b :: rest)) :
    Reading str res k (j + 1) (done ++ [b]) rest := by
  obtain ⟨copied, at_, rfl, rfl⟩ := state
  refine ⟨copied ++ [b], ?_, ?_, (List.append_assoc _ _ _).symm⟩
  · rwa [List.append_assoc]
  · rw [List.length_append, List.length_singleton, Nat.add_assoc]

end Reading

/-- What is found behind `\u`: four digits, if they are not the first half of a pair. -/
theorem match_four (at_ : At str j (hex ++ rest)) (digits : FourDigits hex)
    (apart : ApartFrom hex rest) :
    (matchAt surrogatePair str j).or (matchAt fourDigits str j) = some hex := by
  have four : matchAt fourDigits str j = some hex :=
    (matchAt_eq_some_iff at_).mpr ⟨List.prefix_append _ _, forall₂_fourDigits.mpr digits⟩
  have noPair : matchAt surrogatePair str j = none := by
    cases found : matchAt surrogatePair str j with
    | none => rfl
    | some pair =>
      obtain ⟨first, all⟩ := (matchAt_eq_some_iff at_).mp found
      obtain ⟨high, low, rfl, highDigits, half, lowDigits⟩ := forall₂_surrogatePair.mp all
      obtain ⟨tail, same⟩ := first
      rw [List.append_assoc] at same
      obtain ⟨rfl, behind⟩ := List.append_inj same (highDigits.1.trans digits.1.symm)
      exact absurd ⟨tail, behind⟩ (apart half low lowDigits)
  rw [noPair, four, Option.none_or]

/-- Or a pair. -/
theorem match_pair {high low : Bytes} (at_ : At str j (high ++ 92 :: charByte 'u' :: low ++ rest))
    (digits : FourDigits high ∧ FourDigits low) (half : HighHalf high) :
    (matchAt surrogatePair str j).or (matchAt fourDigits str j) =
      some (high ++ 92 :: charByte 'u' :: low) := by
  have pair : matchAt surrogatePair str j = some (high ++ 92 :: charByte 'u' :: low) :=
    (matchAt_eq_some_iff at_).mpr ⟨List.prefix_append _ _,
      forall₂_surrogatePair.mpr ⟨high, low, rfl, digits.1, half, digits.2⟩⟩
  rw [pair, Option.some_or]

/-- A turn that decodes `\u`. -/
theorem stringLoop_unicode {character : Bytes}
    (state : Reading str res k j done (92 :: charByte 'u' :: (hex ++ rest)))
    (found : (matchAt surrogatePair str (j + 1 + 1)).or (matchAt fourDigits str (j + 1 + 1)) = some hex)
    (stands : parseUnicodeEscape hex = .returned character) :
    stringLoop str i (fuel + 1) res k j =
        stringLoop str i fuel (done ++ character) (j + 1 + hex.length + 1) (j + 1 + hex.length + 1) ∧
      Reading str (done ++ character) (j + 1 + hex.length + 1) (j + 1 + hex.length + 1)
        (done ++ character) rest := by
  have x := state.here.charAt_cons
  have c := state.here.next.charAt_cons
  refine ⟨?_, Reading.fresh ?_⟩
  · simp only [stringLoop, x, c, state.copy, found, stands, Attempt.returned_bind]
    rw [if_neg (by decide), if_pos trivial, if_pos trivial]
  · have behind := state.here.next.next.skip
    rwa [show j + 1 + 1 + hex.length = j + 1 + hex.length + 1 by omega] at behind

/-- **One character**, whatever follows it. -/
theorem stringLoop_piece (piece : Piece)
    (apart : ∀ hex character digits stands, piece = .unicode hex character digits stands →
      ApartFrom hex rest)
    (state : Reading str res k j done (piece.text ++ rest)) :
    ∃ res' k', Reading str res' k' (j + piece.text.length) (done ++ piece.bytes) rest ∧
      stringLoop str i (fuel + 1) res k j =
        stringLoop str i fuel res' k' (j + piece.text.length) := by
  cases piece with
  | plain b printable =>
    refine ⟨res, k, state.plain, ?_⟩
    have x := state.here.charAt_cons
    simp only [stringLoop, x]
    rw [if_neg (Nat.not_lt.mpr printable.1), if_neg printable.2.2, if_neg printable.2.1]
    rfl
  | short c b known stands =>
    have x := state.here.charAt_cons
    have at_ := state.here.next.charAt_cons
    have noU : ¬ some c = some (charByte 'u') := by
      intro same
      rw [Option.some.inj same] at stands
      cases stands
    have listed : (some c).filter (fun c => decide (c ∈ escapeChars)) = some c := by
      rw [Option.filter_some, if_pos (decide_eq_true known)]
    refine ⟨done ++ [b], j + 2, Reading.fresh state.here.next.next, ?_⟩
    simp only [stringLoop, x, at_, state.copy]
    rw [if_neg (by decide), if_pos trivial, if_neg noU]
    simp only [listed, stands]
    rfl
  | unicode hex character digits stands =>
    have found := match_four state.here.next.next digits (apart hex character digits stands rfl)
    obtain ⟨turn, next⟩ := @stringLoop_unicode _ _ _ _ _ i _ _ fuel _ state found
      ((parseUnicodeEscape_four digits).trans stands)
    have size : j + (Piece.unicode hex character digits stands).text.length =
        j + 1 + hex.length + 1 := by
      simp only [Piece.text, List.length_cons]
      omega
    rw [size]
    exact ⟨_, _, next, turn⟩
  | surrogates high low character digits half stands =>
    have found := match_pair state.here.next.next digits half
    obtain ⟨turn, next⟩ := @stringLoop_unicode _ _ _ _ _ i _ _ fuel _ state found
      ((parseUnicodeEscape_pair digits.1 digits.2).trans stands)
    have size : j + (Piece.surrogates high low character digits half stands).text.length =
        j + 1 + (high ++ 92 :: charByte 'u' :: low).length + 1 := by
      simp only [Piece.text, List.length_cons]
      omega
    rw [size]
    exact ⟨_, _, next, turn⟩

/-! ### The whole string -/

theorem piece_text_pos (piece : Piece) : 0 < piece.text.length := by
  cases piece <;> simp [Piece.text]

theorem pieces_length_le (pieces : List Piece) :
    pieces.length ≤ (pieces.flatMap Piece.text).length := by
  induction pieces with
  | nil => exact Nat.le_refl _
  | cons piece pieces ih =>
    have positive := piece_text_pos piece
    rw [List.flatMap_cons, List.length_append, List.length_cons]
    omega

/-- A character that is not written as `\u` does not start so. -/
theorem not_prefix_of_not_isUnicode {piece : Piece} (other : ¬ piece.IsUnicode) (low tail : Bytes) :
    ¬ 92 :: charByte 'u' :: low <+: piece.text ++ tail := by
  rintro ⟨behind, same⟩
  cases piece with
  | plain b printable =>
    exact printable.2.2 (List.cons.inj same).1.symm
  | short c b known stands =>
    have isU : charByte 'u' = c := (List.cons.inj (List.cons.inj same).2).1
    rw [← isU] at stands
    cases stands
  | unicode hex character digits stands => exact other trivial
  | surrogates high low character digits half stands => exact other trivial

/-- What no pair spoils, up to the closing quote. -/
theorem apartFrom_of_apart {piece : Piece} {pieces : List Piece} (apart : piece.Apart pieces)
    {character tail : Bytes} {digits : FourDigits hex}
    {stands : codepointToUtf8 (hexNumber hex) = .returned character}
    (same : piece = .unicode hex character digits stands) :
    ApartFrom hex (pieces.flatMap Piece.text ++ 34 :: tail) := by
  subst same
  intro half low four starts
  cases pieces with
  | nil =>
    obtain ⟨behind, same⟩ := starts
    exact absurd (List.cons.inj same).1 (by decide)
  | cons next pieces =>
    rw [List.flatMap_cons, List.append_assoc] at starts
    exact not_prefix_of_not_isUnicode (apart half) low _ starts

/-- **The loop reads all characters**, and the closing quote. -/
theorem stringLoop_read {pieces : List Piece} (separate : Separate pieces) {tail : Bytes}
    (enough : pieces.length < fuel)
    (state : Reading str res k j done (pieces.flatMap Piece.text ++ 34 :: tail)) :
    stringLoop str i fuel res k j =
      .returned (done ++ pieces.flatMap Piece.bytes, j + (pieces.flatMap Piece.text).length + 1) := by
  induction pieces generalizing fuel res k j done with
  | nil =>
    obtain ⟨fuel, rfl⟩ := Nat.exists_eq_succ_of_ne_zero (Nat.ne_of_gt enough)
    have x := state.here.charAt_cons
    simp only [stringLoop, x, state.copy]
    rw [if_neg (by decide), if_neg (by decide), if_pos trivial]
    simp
  | cons piece pieces ih =>
    obtain ⟨fuel, rfl⟩ := Nat.exists_eq_succ_of_ne_zero (Nat.ne_of_gt (Nat.zero_lt_of_lt enough))
    rw [List.flatMap_cons, List.append_assoc] at state
    obtain ⟨res', k', next, turn⟩ := @stringLoop_piece _ _ _ _ i _ _ fuel piece
      (fun hex character digits stands same => apartFrom_of_apart separate.1 same) state
    rw [turn, ih separate.2 (Nat.lt_of_succ_lt_succ enough) next, List.flatMap_cons,
      List.flatMap_cons, List.length_append, List.append_assoc]
    simp only [Nat.add_assoc]

/-- **`parse_string` reads a string.** -/
theorem parseString_read (s : StringText) (at_ : At str i (s.text ++ rest)) :
    parseString str i = .returned (s.bytes, i + s.text.length) := by
  have size := at_.length_eq
  have few := pieces_length_le s.pieces
  have shape : s.text ++ rest = 34 :: (s.pieces.flatMap Piece.text ++ 34 :: rest) := by
    simp [StringText.text]
  rw [shape] at at_
  have positive := at_.positive
  simp only [StringText.text, List.cons_append, List.length_cons, List.length_append,
    List.length_nil] at size
  rw [parseString, stringLoop_read s.separate (by omega) (Reading.fresh at_.next)]
  simp only [StringText.text, StringText.bytes, List.nil_append, List.length_cons,
    List.length_append, List.length_nil]
  rw [show i + 1 + (s.pieces.flatMap Piece.text).length + 1 =
    i + ((s.pieces.flatMap Piece.text).length + (0 + 1) + 1) by omega]

end Loop

end Bacteria.Json
