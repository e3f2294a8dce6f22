/-
**Positions in a text, counted from one.**

* `charAt`, `sub` — `text:sub(i, i)` and `text:sub(i, j)`.
* `At text i rest` — from position `i` on, the text is `rest`: `At.charAt_cons`, `At.charAt_nil` — the
  character there; `At.skip`, `At.next` — the positions behind it; `At.sub_eq` — what lies between;
  `At.of_charAt` — where there is a character, there is a rest.
* `skipTo` — the first position from `i` on with a wanted character, or the one behind the text;
  `skipTo_eq` — it is as far away as the unwanted characters are many.
-/

import Mathlib.Data.List.Basic
import Mathlib.Data.List.TakeWhile

namespace Cursor

section Cursor

variable {α : Type}

/-- `text:sub(i, i)`, `none` for an empty string. -/
def charAt (text : List α) : Nat → Option α
  | 0 => none
  | i + 1 => text[i]?

/-- `text:sub(i, j)` for a positive `i`. -/
def sub (text : List α) (i j : Nat) : List α := (text.take j).drop (i - 1)

/-- **From this position on**, the text is this rest. -/
def At (text : List α) (i : Nat) (rest : List α) : Prop :=
  ∃ before, text = before ++ rest ∧ i = before.length + 1

/-- The first position from `i` on with a wanted character; the one behind the text if there is none. -/
def skipTo (wanted : α → Bool) (text : List α) (i : Nat) : Nat :=
  match (text.drop (i - 1)).findIdx? wanted with
  | some count => i + count
  | none => text.length + 1

variable {text rest first : List α} {i : Nat} {c : α}

namespace At

theorem start (text : List α) : At text 1 text := ⟨[], rfl, rfl⟩

theorem charAt_cons (here : At text i (c :: rest)) : charAt text i = some c := by
  obtain ⟨before, rfl, rfl⟩ := here
  rw [charAt, List.getElem?_append_right (Nat.le_refl _), Nat.sub_self, List.getElem?_cons_zero]

theorem charAt_nil (here : At text i []) : charAt text i = none := by
  obtain ⟨before, rfl, rfl⟩ := here
  rw [charAt, List.append_nil, List.getElem?_eq_none (Nat.le_refl _)]

/-- The position behind a first part. -/
theorem skip (here : At text i (first ++ rest)) : At text (i + first.length) rest := by
  obtain ⟨before, rfl, rfl⟩ := here
  refine ⟨before ++ first, (List.append_assoc _ _ _).symm, ?_⟩
  rw [List.length_append]
  omega

theorem next (here : At text i (c :: rest)) : At text (i + 1) rest :=
  @skip α text rest [c] i here

/-- What lies between two positions. -/
theorem sub_eq (here : At text i (first ++ rest)) {j : Nat} (stop : j + 1 = i + first.length) :
    sub text i j = first := by
  obtain ⟨before, rfl, rfl⟩ := here
  have upTo : j = before.length + first.length := by omega
  rw [sub, upTo, ← List.append_assoc, ← List.length_append, List.take_left, Nat.add_sub_cancel,
    List.drop_left]

theorem length_eq (here : At text i rest) : i + rest.length = text.length + 1 := by
  obtain ⟨before, rfl, rfl⟩ := here
  rw [List.length_append]
  omega

theorem drop_eq (here : At text i rest) : text.drop (i - 1) = rest := by
  obtain ⟨before, rfl, rfl⟩ := here
  rw [Nat.add_sub_cancel, List.drop_left]

theorem positive (here : At text i rest) : 0 < i := by
  obtain ⟨before, _, rfl⟩ := here
  exact Nat.succ_pos _

/-- There is one rest at a position. -/
theorem unique {other : List α} (here : At text i rest) (same : At text i other) : rest = other :=
  here.drop_eq.symm.trans same.drop_eq

/-- **Where there is a character, there is a rest** that starts with it. -/
theorem of_charAt (found : charAt text i = some c) : ∃ rest, At text i (c :: rest) := by
  cases i with
  | zero => cases found
  | succ i =>
    obtain ⟨inside, rfl⟩ := List.getElem?_eq_some_iff.mp found
    refine ⟨text.drop (i + 1), text.take i, ?_, ?_⟩
    · rw [← List.drop_eq_getElem_cons inside, List.take_append_drop]
    · rw [List.length_take, Nat.min_eq_left (Nat.le_of_lt inside)]

theorem of_charAt_some (here : At text i rest) (found : charAt text i = some c) :
    ∃ later, rest = c :: later := by
  obtain ⟨later, there⟩ := of_charAt found
  exact ⟨later, here.unique there⟩

end At

/-- **The unwanted characters are skipped.** -/
theorem skipTo_eq (wanted : α → Bool) (here : At text i rest) :
    skipTo wanted text i = i + (rest.takeWhile fun c => !wanted c).length := by
  have size := here.length_eq
  rw [skipTo, here.drop_eq]
  clear here
  induction rest generalizing i with
  | nil =>
    simpa using size.symm
  | cons c rest ih =>
    rw [List.findIdx?_cons, List.takeWhile_cons]
    cases isWanted : wanted c with
    | true => simp
    | false =>
      have later := ih (i := i + 1) (by rw [List.length_cons] at size; omega)
      simp only [Bool.false_eq_true, if_false, Bool.not_false, if_true, List.length_cons]
      cases found : rest.findIdx? wanted with
      | none =>
        rw [found] at later
        simp only at later
        simp only [Option.map_none]
        omega
      | some count =>
        rw [found] at later
        simp only at later
        simp only [Option.map_some]
        omega

/-- A first part of unwanted characters, up to a wanted one or the end. -/
theorem skipTo_append {wanted : α → Bool} (here : At text i (first ++ rest))
    (unwanted : ∀ c ∈ first, wanted c = false) (stop : ∀ c, rest.head? = some c → wanted c = true) :
    skipTo wanted text i = i + first.length := by
  have none : rest.takeWhile (fun c => !wanted c) = [] := by
    cases rest with
    | nil => rfl
    | cons c rest => rw [List.takeWhile_cons, stop c rfl]; rfl
  rw [skipTo_eq wanted here, List.takeWhile_append_of_pos fun c member => by rw [unwanted c member]; rfl,
    none, List.append_nil]

/-- What is skipped, and what is left. -/
theorem exists_skipTo (wanted : α → Bool) (here : At text i rest) :
    ∃ skipped left, rest = skipped ++ left ∧ skipTo wanted text i = i + skipped.length ∧
      At text (i + skipped.length) left ∧ (∀ c ∈ skipped, wanted c = false) ∧
      ∀ c, left.head? = some c → wanted c = true := by
  have split : rest = rest.takeWhile (fun c => !wanted c) ++ rest.dropWhile (fun c => !wanted c) :=
    List.takeWhile_append_dropWhile.symm
  refine ⟨_, _, split, skipTo_eq wanted here, At.skip (split ▸ here), fun c member => ?_,
    fun c head => ?_⟩
  · simpa using List.mem_takeWhile_imp member
  · have kept := List.head?_dropWhile_not (fun c => !wanted c) rest
    rw [head] at kept
    simpa using kept

end Cursor

end Cursor
