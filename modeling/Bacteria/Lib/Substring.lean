/-
**The first occurrence of a text in another.**

* `strstr needle text` — where the needle first stands in the text.
* `strstr_of_prefix`, `strstr_skip` — it stands at the start; it does not start in a first part.
* `strstr_eq_none_iff` — it stands nowhere. `strstr_singleton` — one character.
* `Fenced` — words between fences of equal length; `strstr_skip_word`, `strstr_skip_words`,
  `strstr_word` — a search for a fenced word passes over the others.
-/

import Bacteria.Lib.CString
import Mathlib.Data.List.Infix

namespace Clib

section Substring

variable {α : Type} [DecidableEq α]

/-- `strstr(text, needle)`, as an offset; `none` for a null result. -/
def strstr (needle : List α) : List α → Option Nat
  | [] => if needle = [] then some 0 else none
  | b :: text => if needle <+: b :: text then some 0 else (strstr needle text).map (· + 1)

variable {needle text : List α}

theorem strstr_of_prefix (here : needle <+: text) : strstr needle text = some 0 := by
  cases text with
  | nil => exact if_pos (List.prefix_nil.mp here)
  | cons b text => exact if_pos here

/-- **A first part in which the needle does not start is skipped.** -/
theorem strstr_skip {first : List α}
    (none : ∀ j < first.length, ¬ needle <+: (first ++ text).drop j) :
    strstr needle (first ++ text) = (strstr needle text).map (first.length + ·) := by
  induction first with
  | nil =>
    simp only [List.nil_append, List.length_nil, Nat.zero_add]
    exact Option.map_id'.symm
  | cons b first ih =>
    have notHere := none 0 (Nat.succ_pos _)
    rw [List.drop_zero, List.cons_append] at notHere
    have later := ih fun j below => by
      have shifted := none (j + 1) (Nat.succ_lt_succ below)
      rwa [List.cons_append, List.drop_succ_cons] at shifted
    rw [List.cons_append, strstr, if_neg notHere, later, Option.map_map, List.length_cons]
    refine congrArg (fun f => Option.map f _) (funext fun offset => ?_)
    exact Nat.add_right_comm _ _ _

/-- **No occurrence.** -/
theorem strstr_eq_none_iff : strstr needle text = none ↔ ¬ needle <:+: text := by
  induction text with
  | nil =>
    rw [strstr, List.infix_nil]
    by_cases empty : needle = []
    · rw [if_pos empty]
      exact iff_of_false (Option.some_ne_none 0) (not_not.mpr empty)
    · rw [if_neg empty]
      exact iff_of_true rfl empty
  | cons b text ih =>
    rw [strstr, List.infix_cons_iff, not_or]
    by_cases here : needle <+: b :: text
    · rw [if_pos here]
      exact iff_of_false (Option.some_ne_none 0) fun both => both.1 here
    · rw [if_neg here, Option.map_eq_none_iff, ih]
      exact ⟨fun later => ⟨here, later⟩, fun both => both.2⟩

/-- The first occurrence of one character. -/
theorem strstr_singleton {c : α} {before : List α} (clean : c ∉ before) (after : List α) :
    strstr [c] (before ++ c :: after) = some before.length := by
  have skipped : strstr [c] (before ++ c :: after) =
      (strstr [c] (c :: after)).map (before.length + ·) := by
    refine strstr_skip fun j below starts => ?_
    rw [List.drop_append_of_le_length (Nat.le_of_lt below), List.drop_eq_getElem_cons below,
      List.cons_append, List.cons_prefix_cons] at starts
    exact clean (starts.1 ▸ List.getElem_mem below)
  have here : [c] <+: c :: after := List.prefix_append [c] after
  rw [skipped, strstr_of_prefix here, Option.map_some, Nat.add_zero]

omit [DecidableEq α] in
/-- What a prefix of the rest says about the characters of the text. -/
theorem getElem?_of_prefix_drop {j k : Nat} (starts : needle <+: text.drop j)
    (inside : k < needle.length) : text[j + k]? = needle[k]? := by
  obtain ⟨rest, same⟩ := starts
  rw [← List.getElem?_drop, ← same, List.getElem?_append_left inside]

/-! ### Fenced words -/

section Fenced

variable (d : α) (count : Nat)

/-- A word between two fences. -/
def fenced (word : List α) : List α := List.replicate count d ++ word ++ List.replicate count d

/-- Words with a fence before each. -/
def fences (words : List (List α)) : List α := words.flatMap (List.replicate count d ++ ·)

variable {d count} {word other : List α}

omit [DecidableEq α] in
theorem fences_nil : fences d count [] = [] := rfl

omit [DecidableEq α] in
theorem fences_cons (words : List (List α)) :
    fences d count (word :: words) = List.replicate count d ++ word ++ fences d count words := rfl

omit [DecidableEq α] in
theorem fences_append (first second : List (List α)) :
    fences d count (first ++ second) = fences d count first ++ fences d count second :=
  List.flatMap_append

omit [DecidableEq α] in
/-- Words and a last fence start with a fence. -/
theorem fences_closed (words : List (List α)) (tail : List α) :
    ∃ rest, fences d count words ++ (List.replicate count d ++ tail) =
      List.replicate count d ++ rest := by
  cases words with
  | nil => exact ⟨tail, rfl⟩
  | cons word words => exact ⟨_, by rw [fences_cons, List.append_assoc, List.append_assoc]⟩

/-- Two words up to the same character are equal. -/
theorem eq_of_closed {first second : List α} (clean : d ∉ word) (otherClean : d ∉ other)
    (same : word ++ d :: first <+: other ++ d :: second) : word = other := by
  obtain ⟨rest, same⟩ := same
  have one := cut_append clean (first ++ rest)
  rw [← List.cons_append, ← List.append_assoc, same, cut_append otherClean second] at one
  exact (congrArg Prod.fst (Option.some.inj one)).symm

/-- **A fenced word does not start in another one**, up to the next fence. -/
theorem strstr_skip_word (positive : 0 < count) (some : word ≠ []) (clean : d ∉ word)
    (otherClean : d ∉ other) (different : other ≠ word) (rest : List α) :
    strstr (fenced d count word)
        (List.replicate count d ++ other ++ (List.replicate count d ++ rest)) =
      (strstr (fenced d count word) (List.replicate count d ++ rest)).map
        ((List.replicate count d ++ other).length + ·) := by
  obtain ⟨less, rfl⟩ := Nat.exists_eq_succ_of_ne_zero (Nat.ne_of_gt positive)
  have dash : ∀ k < less + 1, ∀ tail : List α,
      (List.replicate (less + 1) d ++ tail)[k]? = .some d := by
    intro k below tail
    rw [List.getElem?_append_left (by rwa [List.length_replicate]), List.getElem?_replicate,
      if_pos below]
  have size : (fenced d (less + 1) word).length = less + 1 + word.length + (less + 1) := by
    rw [fenced, List.length_append, List.length_append, List.length_replicate]
  have needle : ∀ k < less + 1, (fenced d (less + 1) word)[k]? = .some d := by
    intro k below
    rw [fenced, List.append_assoc]
    exact dash k below _
  refine strstr_skip fun j below starts => ?_
  rw [List.length_append, List.length_replicate] at below
  by_cases start : j = 0
  · -- the words are compared from their first character on
    rw [start, List.drop_zero, fenced, List.append_assoc, List.append_assoc,
      List.prefix_append_right_inj, List.replicate_succ, List.cons_append] at starts
    exact different (eq_of_closed clean otherClean starts).symm
  by_cases inFence : j < less + 1
  · cases other with
    | nil =>
      -- two fences in a row: the word is compared with the second one
      have positiveWord : 0 < word.length := List.length_pos_iff.mpr some
      have compared := getElem?_of_prefix_drop starts
        (show less + 1 < (fenced d (less + 1) word).length by omega)
      rw [List.append_nil, List.getElem?_append_right (by rw [List.length_replicate]; omega),
        List.length_replicate, Nat.add_sub_cancel, dash j inFence, fenced, List.append_assoc,
        List.getElem?_append_right (by rw [List.length_replicate]), List.length_replicate,
        Nat.sub_self, List.getElem?_append_left positiveWord] at compared
      exact clean (List.mem_of_getElem? compared.symm)
    | cons c other =>
      -- what is left of the fence is too short
      have compared := getElem?_of_prefix_drop starts
        (show less + 1 - j < (fenced d (less + 1) word).length by omega)
      rw [Nat.add_sub_cancel' (Nat.le_of_lt inFence), List.append_assoc,
        List.getElem?_append_right (by rw [List.length_replicate]), List.length_replicate,
        Nat.sub_self, needle _ (by omega)] at compared
      exact otherClean (Option.some.inj compared ▸ List.mem_cons_self)
  · -- the fence is compared with a character of the other word
    have compared := getElem?_of_prefix_drop starts
      (show 0 < (fenced d (less + 1) word).length by omega)
    rw [Nat.add_zero, List.append_assoc,
      List.getElem?_append_right (by rw [List.length_replicate]; omega), List.length_replicate,
      List.getElem?_append_left (by omega), needle 0 (Nat.succ_pos _)] at compared
    exact otherClean (List.mem_of_getElem? compared)

/-- **It passes over all words before its own.** -/
theorem strstr_skip_words (positive : 0 < count) (some : word ≠ []) (clean : d ∉ word)
    {others : List (List α)} (each : ∀ other ∈ others, d ∉ other ∧ other ≠ word) (rest : List α) :
    strstr (fenced d count word) (fences d count others ++ (List.replicate count d ++ rest)) =
      (strstr (fenced d count word) (List.replicate count d ++ rest)).map
        ((fences d count others).length + ·) := by
  induction others with
  | nil =>
    simp only [fences, List.flatMap_nil, List.nil_append, List.length_nil, Nat.zero_add]
    exact Option.map_id'.symm
  | cons other others ih =>
    obtain ⟨otherClean, different⟩ := each other List.mem_cons_self
    have later := ih fun next member => each next (List.mem_cons_of_mem _ member)
    obtain ⟨tail, same⟩ := @fences_closed α d count others rest
    have length : (List.replicate count d ++ other ++ fences d count others).length =
        (List.replicate count d ++ other).length + (fences d count others).length :=
      List.length_append
    rw [fences_cons, length, List.append_assoc, same,
      strstr_skip_word positive some clean otherClean different, ← same, later, Option.map_map]
    refine congrArg (fun f => Option.map f _) (funext fun offset => ?_)
    exact (Nat.add_assoc _ _ _).symm

/-- **Where a fenced word first stands.** -/
theorem strstr_word (positive : 0 < count) (some : word ≠ []) (clean : d ∉ word)
    {before : List (List α)} (each : ∀ other ∈ before, d ∉ other ∧ other ≠ word)
    (after : List (List α)) (tail : List α) :
    strstr (fenced d count word)
        (fences d count (before ++ word :: after) ++ (List.replicate count d ++ tail)) =
      .some (fences d count before).length := by
  obtain ⟨rest, closed⟩ := @fences_closed α d count after tail
  have shape : fences d count (before ++ word :: after) ++ (List.replicate count d ++ tail) =
      fences d count before ++
        (List.replicate count d ++ (word ++ (List.replicate count d ++ rest))) := by
    rw [fences_append, fences_cons, List.append_assoc, List.append_assoc, List.append_assoc, closed]
  have here : fenced d count word <+:
      List.replicate count d ++ (word ++ (List.replicate count d ++ rest)) :=
    ⟨rest, by rw [fenced, List.append_assoc, List.append_assoc]⟩
  rw [shape, strstr_skip_words positive some clean each, strstr_of_prefix here, Option.map_some,
    Nat.add_zero]

/-- **A fenced word that is none of them stands nowhere.** -/
theorem strstr_absent (positive : 0 < count) (some : word ≠ []) (clean : d ∉ word)
    {others : List (List α)} (each : ∀ other ∈ others, d ∉ other ∧ other ≠ word) :
    strstr (fenced d count word) (fences d count others ++ List.replicate count d) = none := by
  have short : strstr (fenced d count word) (List.replicate count d) = none := by
    rw [strstr_eq_none_iff]
    intro inside
    have length := inside.length_le
    rw [fenced, List.length_append, List.length_append, List.length_replicate] at length
    omega
  have skipped := strstr_skip_words positive some clean each []
  rwa [List.append_nil, short, Option.map_none] at skipped

end Fenced

end Substring

end Clib
