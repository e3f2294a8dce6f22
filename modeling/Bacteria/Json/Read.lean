/-
**The decoder reads every document.**

* `Delimited` — what may follow a word; `nextChar_blank`, `nextChar_word` — `next_char` behind white
  space, and behind a number or a literal.
* `doc_read`, `items_read`, `members_read` — each kind of text is read to its end, whatever follows it:
  an induction over the document, in step with the calls of the decoder.
* `decodeText_read` — `json.decode` of a text that denotes a value.
-/

import Bacteria.Json.Strings

namespace Bacteria.Json

open Clib Cursor Loops Lua

/-- A word ends where a delimiter or nothing follows. -/
def Delimited (rest : Bytes) : Prop := ∀ c, rest.head? = some c → c ∈ delimChars

section Scanning

variable {str rest word : Bytes} {i : Nat} {c : Byte}

theorem nextChar_blank (blank : Blank) (at_ : At str i (blank.bytes ++ rest))
    (stop : ∀ c, rest.head? = some c → c ∉ spaceChars) :
    nextChar str i spaceChars true = i + blank.bytes.length := by
  refine skipTo_append at_ (fun c member => ?_) fun c head => ?_
  · simp [blank.spaces c member]
  · simp [stop c head]

theorem nextChar_word (at_ : At str i (word ++ rest)) (clean : ∀ b ∈ word, b ∉ delimChars)
    (stop : Delimited rest) : nextChar str i delimChars false = i + word.length := by
  refine skipTo_append at_ (fun c member => ?_) fun c head => ?_
  · simp [clean c member]
  · simp [stop c head]

theorem delimited_blank (blank : Blank) (delim : c ∈ delimChars) (rest : Bytes) :
    Delimited (blank.bytes ++ c :: rest) := by
  intro first head
  have spaces : ∀ b ∈ spaceChars, b ∈ delimChars := by decide
  cases shape : blank.bytes with
  | nil =>
    rw [shape] at head
    exact Option.some.inj head ▸ delim
  | cons b bytes =>
    rw [shape] at head
    have member : b ∈ blank.bytes := shape ▸ List.mem_cons_self
    exact Option.some.inj head ▸ spaces b (blank.spaces b member)

theorem delimited_end (blank : Blank) : Delimited blank.bytes := by
  intro first head
  have spaces : ∀ b ∈ spaceChars, b ∈ delimChars := by decide
  exact spaces first (blank.spaces first (List.mem_of_mem_head? head))

/-- Behind a word, the word is what lies between. -/
theorem sub_word (at_ : At str i (word ++ rest)) : sub str i (i + word.length - 1) = word := by
  have positive := at_.positive
  exact at_.sub_eq (by omega)

end Scanning

section Documents

variable {ν : Type} {num : Numerals ν} {str rest : Bytes} {i fuel : Nat}

theorem parseNumber_read (word : NumberWord num) (at_ : At str i (word.word ++ rest))
    (stop : Delimited rest) :
    parseNumber num str i = .returned (.number word.n, i + word.word.length) := by
  simp only [parseNumber, nextChar_word at_ word.clean stop, sub_word at_, word.reads]

/-- A literal has no delimiter. -/
theorem literal_clean : ∀ word ∈ literals, ∀ b ∈ word, b ∉ delimChars := by decide

theorem parseLiteral_read {word : Bytes} (known : word ∈ literals) (at_ : At str i (word ++ rest))
    (stop : Delimited rest) :
    @parseLiteral ν str i = .returned (literalMap word, i + word.length) := by
  simp only [parseLiteral, nextChar_word at_ (literal_clean word known) stop, sub_word at_, if_pos known]

/-- What a literal starts with. -/
theorem literal_head {word : Bytes} (known : word ∈ literals) :
    ∃ c rest, word = c :: rest ∧ c ∈ ascii "tfn" := by
  simp only [literals, List.mem_cons, List.not_mem_nil, or_false] at known
  rcases known with rfl | rfl | rfl
  · exact ⟨charByte 't', ascii "rue", by decide, by decide⟩
  · exact ⟨charByte 'f', ascii "alse", by decide, by decide⟩
  · exact ⟨charByte 'n', ascii "ull", by decide, by decide⟩

/-- The characters that a value starts with. -/
def startChars : List Byte := ascii "\"0123456789-tfn[\x7b"

theorem startChars_spec : ∀ c ∈ startChars, c ∉ spaceChars ∧ c ≠ charByte ']' := by decide

/-- **A value starts with one of them.** -/
theorem doc_head (doc : Doc num) : ∃ c rest, doc.text = c :: rest ∧ c ∈ startChars := by
  cases doc with
  | literal word known =>
    have letters : ∀ c ∈ ascii "tfn", c ∈ startChars := by decide
    obtain ⟨c, rest, shape, first⟩ := literal_head known
    exact ⟨c, rest, shape, letters c first⟩
  | number word =>
    have digits : ∀ c ∈ ascii "0123456789-", c ∈ startChars := by decide
    obtain ⟨c, rest, shape, first⟩ := word.first
    exact ⟨c, rest, shape, digits c first⟩
  | string s => exact ⟨34, _, by rw [Doc.text, StringText.text], by decide⟩
  | array items => exact ⟨charByte '[', _, by rw [Doc.text], by decide⟩
  | object members => exact ⟨charByte '{', _, by rw [Doc.text], by decide⟩

/-- Where a value starts, there is neither white space nor `]`. -/
theorem charAt_doc (doc : Doc num) (at_ : At str i (doc.text ++ rest)) :
    charAt str i ≠ some (charByte ']') ∧
      ∀ c, (doc.text ++ rest).head? = some c → c ∉ spaceChars := by
  obtain ⟨c, tail, shape, start⟩ := doc_head doc
  obtain ⟨noSpace, noBracket⟩ := startChars_spec c start
  rw [shape, List.cons_append] at at_ ⊢
  rw [at_.charAt_cons]
  exact ⟨fun same => noBracket (Option.some.inj same), fun _ head => Option.some.inj head ▸ noSpace⟩

/-- A closing character behind white space. -/
theorem nextChar_close (blank : Blank) {c : Byte} (at_ : At str i (blank.bytes ++ c :: rest))
    (noSpace : c ∉ spaceChars) :
    nextChar str i spaceChars true = i + blank.bytes.length ∧
      charAt str (i + blank.bytes.length) = some c ∧ At str (i + blank.bytes.length + 1) rest :=
  ⟨nextChar_blank blank at_ fun _ head => Option.some.inj head ▸ noSpace, at_.skip.charAt_cons,
    at_.skip.next⟩

variable [DecidableEq ν]

/-- The characters of the brackets, the comma and the colon are no white space, and delimiters as far as
they follow a value. -/
theorem closing_spec :
    charByte ']' ∉ spaceChars ∧ charByte '}' ∉ spaceChars ∧ charByte ',' ∉ spaceChars ∧
      charByte ':' ∉ spaceChars ∧ charByte ']' ∈ delimChars ∧ charByte '}' ∈ delimChars ∧
      charByte ',' ∈ delimChars := by decide

/-- The start of a member is read up to its value. -/
theorem key_read (before : Blank) (key : StringText) (colon first : Blank) {value : Bytes}
    (at_ : At str i (keyText before key colon first ++ value)) :
    ∃ j, nextChar str i spaceChars true = j ∧ charAt str j = some 34 ∧
      parseString str j = .returned (key.bytes, j + key.text.length) ∧
      ∃ k, nextChar str (j + key.text.length) spaceChars true = k ∧
        charAt str k = some (charByte ':') ∧ At str (k + 1) (first.bytes ++ value) ∧
        k + 1 + first.bytes.length = i + (keyText before key colon first).length := by
  have shape : keyText before key colon first ++ value =
      before.bytes ++ (key.text ++ (colon.bytes ++ charByte ':' :: (first.bytes ++ value))) := by
    simp [keyText]
  rw [shape] at at_
  have quote : ∀ c, (key.text ++ (colon.bytes ++ charByte ':' :: (first.bytes ++ value))).head? =
      some c → c ∉ spaceChars := by
    intro c head
    obtain rfl : 34 = c := Option.some.inj head
    decide
  obtain ⟨stop, isColon, behind⟩ := nextChar_close colon at_.skip.skip closing_spec.2.2.2.1
  refine ⟨_, nextChar_blank before at_ quote, ?_, parseString_read key at_.skip, _, stop, isColon,
    behind, ?_⟩
  · have here := at_.skip
    rw [StringText.text, List.cons_append] at here
    exact here.charAt_cons
  · simp only [keyText, List.length_append, List.length_cons]
    omega

mutual

/-- **A value is read**, up to a delimiter or the end. -/
theorem doc_read (doc : Doc num) {fuel i : Nat} {rest : Bytes}
    (enough : 2 * doc.text.length + 1 ≤ fuel) (at_ : At str i (doc.text ++ rest))
    (stop : Delimited rest) :
    parse num str fuel i = .returned (doc.value, i + doc.text.length) := by
  obtain ⟨fuel, rfl⟩ := Nat.exists_eq_succ_of_ne_zero (show fuel ≠ 0 by omega)
  cases doc with
  | literal word known =>
    obtain ⟨c, tail, shape, first⟩ := literal_head known
    have kind : ∀ c ∈ ascii "tfn", c ≠ 34 ∧ c ∉ ascii "0123456789-" := by decide
    have chr : charAt str i = some c := by
      rw [Doc.text, shape, List.cons_append] at at_
      exact at_.charAt_cons
    rw [Doc.text] at at_ ⊢
    simp only [parse, chr]
    rw [if_neg (kind c first).1, if_neg (kind c first).2, if_pos first,
      parseLiteral_read known at_ stop, Doc.value]
  | number word =>
    obtain ⟨c, tail, shape, first⟩ := word.first
    have kind : ∀ c ∈ ascii "0123456789-", c ≠ 34 := by decide
    have chr : charAt str i = some c := by
      rw [Doc.text, shape, List.cons_append] at at_
      exact at_.charAt_cons
    rw [Doc.text] at at_ ⊢
    simp only [parse, chr]
    rw [if_neg (kind c first), if_pos first, parseNumber_read word at_ stop, Doc.value]
  | string s =>
    rw [Doc.text] at at_ ⊢
    have chr : charAt str i = some 34 := by
      rw [StringText.text, List.cons_append] at at_
      exact at_.charAt_cons
    simp only [parse, chr]
    rw [if_pos trivial, parseString_read s at_, Attempt.returned_bind, Doc.value]
  | array items =>
    rw [Doc.text, List.cons_append] at at_
    rw [Doc.text, List.length_cons] at enough
    have chr := at_.charAt_cons
    simp only [parse, chr]
    rw [if_neg (by decide), if_neg (by decide), if_neg (by decide), if_pos trivial,
      items_read items (by omega) at_.next, Doc.value, Doc.text, List.length_cons,
      Nat.add_comm items.text.length, Nat.add_assoc]
  | object members =>
    rw [Doc.text, List.cons_append] at at_
    rw [Doc.text, List.length_cons] at enough
    have chr := at_.charAt_cons
    simp only [parse, chr]
    rw [if_neg (by decide), if_neg (by decide), if_neg (by decide), if_neg (by decide),
      if_pos trivial, members_read members (by omega) at_.next, Doc.value, Doc.text,
      List.length_cons, Nat.add_comm members.text.length, Nat.add_assoc]

/-- What follows `[` is read. -/
theorem items_read (items : Items num) {fuel n i : Nat} {res : Value ν → Tree ν} {rest : Bytes}
    (enough : 2 * items.text.length + 2 ≤ fuel) (at_ : At str i (items.text ++ rest)) :
    arrayLoop num str fuel res n i =
      .returned (.table (items.fields res n), i + items.text.length) := by
  obtain ⟨fuel, rfl⟩ := Nat.exists_eq_succ_of_ne_zero (show fuel ≠ 0 by omega)
  obtain ⟨bracketSpace, _, commaSpace, _, bracketDelim, _, commaDelim⟩ := closing_spec
  cases items with
  | close blank =>
    rw [Items.text, List.append_assoc, List.singleton_append] at at_
    obtain ⟨next, chr, behind⟩ := nextChar_close blank at_ bracketSpace
    simp only [arrayLoop, next, chr, if_true]
    rw [Items.fields, Items.text, List.length_append, List.length_singleton, Nat.add_assoc]
  | last before value after =>
    have size := Items.last_length before value after
    have shape : (Items.last before value after).text ++ rest =
        before.bytes ++ (value.text ++ (after.bytes ++ charByte ']' :: rest)) := by
      simp [Items.text]
    rw [shape] at at_
    obtain ⟨noBracket, noSpace⟩ := charAt_doc value at_.skip
    have read : parse num str fuel (i + before.bytes.length) = _ :=
      doc_read value (by omega) at_.skip (delimited_blank after bracketDelim rest)
    obtain ⟨next, chr, behind⟩ := nextChar_close after at_.skip.skip bracketSpace
    simp only [arrayLoop, nextChar_blank before at_ noSpace, if_neg noBracket, read,
      Attempt.returned_bind, next, chr, if_true]
    rw [Items.fields, size]
    simp only [Nat.add_assoc]
  | more before value after items =>
    have size := Items.more_length before value after items
    have shape : (Items.more before value after items).text ++ rest =
        before.bytes ++ (value.text ++ (after.bytes ++ charByte ',' :: (items.text ++ rest))) := by
      simp [Items.text]
    rw [shape] at at_
    obtain ⟨noBracket, noSpace⟩ := charAt_doc value at_.skip
    have read : parse num str fuel (i + before.bytes.length) = _ :=
      doc_read value (by omega) at_.skip (delimited_blank after commaDelim _)
    obtain ⟨next, chr, behind⟩ := nextChar_close after at_.skip.skip commaSpace
    have noClose : ¬ some (charByte ',') = some (charByte ']') := by decide
    simp only [arrayLoop, nextChar_blank before at_ noSpace, if_neg noBracket, read,
      Attempt.returned_bind, next, chr, if_neg noClose, if_true]
    rw [items_read items (by omega) behind, Items.fields, size]
    simp only [Nat.add_assoc, Nat.add_comm 1]

/-- What follows `{` is read. -/
theorem members_read (members : Members num) {fuel i : Nat} {res : Value ν → Tree ν} {rest : Bytes}
    (enough : 2 * members.text.length + 2 ≤ fuel) (at_ : At str i (members.text ++ rest)) :
    objectLoop num str fuel res i =
      .returned (.table (members.fields res), i + members.text.length) := by
  obtain ⟨fuel, rfl⟩ := Nat.exists_eq_succ_of_ne_zero (show fuel ≠ 0 by omega)
  obtain ⟨_, braceSpace, commaSpace, _, _, braceDelim, commaDelim⟩ := closing_spec
  have noBrace : ¬ some (34 : Byte) = some (charByte '}') := by decide
  cases members with
  | close blank =>
    rw [Members.text, List.append_assoc, List.singleton_append] at at_
    obtain ⟨next, chr, behind⟩ := nextChar_close blank at_ braceSpace
    simp only [objectLoop, next, chr, if_true]
    rw [Members.fields, Members.text, List.length_append, List.length_singleton, Nat.add_assoc]
  | last before key colon first value after =>
    have size := Members.last_length before key colon first value after
    have shape : (Members.last before key colon first value after).text ++ rest =
        keyText before key colon first ++ (value.text ++ (after.bytes ++ charByte '}' :: rest)) := by
      simp [Members.text]
    rw [shape] at at_
    obtain ⟨j, start, quote, readKey, k, stop, isColon, between, position⟩ :=
      key_read before key colon first at_
    have read : parse num str fuel (k + 1 + first.bytes.length) = _ :=
      doc_read value (by omega) between.skip (delimited_blank after braceDelim rest)
    obtain ⟨next, chr, behind⟩ := nextChar_close after between.skip.skip braceSpace
    simp only [objectLoop, start, quote, if_neg noBrace, ne_eq, not_true_eq_false, if_false, readKey,
      Attempt.returned_bind, stop, isColon, nextChar_blank first between (charAt_doc value between.skip).2,
      read, next, chr, if_true]
    rw [Members.fields, size, position]
    simp only [Nat.add_assoc]
  | more before key colon first value after members =>
    have size := Members.more_length before key colon first value after members
    have shape : (Members.more before key colon first value after members).text ++ rest =
        keyText before key colon first ++
          (value.text ++ (after.bytes ++ charByte ',' :: (members.text ++ rest))) := by
      simp [Members.text]
    rw [shape] at at_
    obtain ⟨j, start, quote, readKey, k, stop, isColon, between, position⟩ :=
      key_read before key colon first at_
    have read : parse num str fuel (k + 1 + first.bytes.length) = _ :=
      doc_read value (by omega) between.skip (delimited_blank after commaDelim _)
    obtain ⟨next, chr, behind⟩ := nextChar_close after between.skip.skip commaSpace
    have noClose : ¬ some (charByte ',') = some (charByte '}') := by decide
    simp only [objectLoop, start, quote, if_neg noBrace, ne_eq, not_true_eq_false, if_false, readKey,
      Attempt.returned_bind, stop, isColon, nextChar_blank first between (charAt_doc value between.skip).2,
      read, next, chr, if_neg noClose, if_true]
    rw [members_read members (by omega) behind, Members.fields, size, position]
    simp only [Nat.add_assoc, Nat.add_comm 1]

end

/-- **`json.decode` reads every text that denotes a value.** -/
theorem decodeText_read {text : Bytes} {value : Tree ν} (denotes : Denotes num text value) {fuel : Nat}
    (enough : 2 * text.length + 1 ≤ fuel) : decodeText num fuel text = .returned value := by
  obtain ⟨before, doc, after, shape, rfl⟩ := denotes
  have size := congrArg List.length shape
  simp only [List.length_append] at size
  have start : At text 1 (before.bytes ++ (doc.text ++ after.bytes)) := shape ▸ At.start text
  have read : parse num text fuel (1 + before.bytes.length) = _ :=
    doc_read doc (by omega) start.skip (delimited_end after)
  have behind : At text (1 + before.bytes.length + doc.text.length) (after.bytes ++ []) := by
    rw [List.append_nil]
    exact start.skip.skip
  have stop := nextChar_blank after behind fun c head => by cases head
  simp only [decodeText, nextChar_blank before start (charAt_doc doc start.skip).2, read,
    Attempt.returned_bind, stop]
  rw [if_neg (by omega)]

end Documents

end Bacteria.Json
