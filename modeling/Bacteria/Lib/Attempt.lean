/-
**Code that may raise an error, run on fuel.**

* `Attempt` — a piece of code returns, raises an error, or has not ended when the fuel is used up.
* `bind_eq_returned_iff`, `bind_eq_raised_iff`, `bind_eq_unfinished_iff` — the three ways a sequence
  ends, by those of its parts.
* `mapM_eq_returned_iff`, `exists_of_mapM_raised`, `exists_of_mapM_unfinished` — the same for one piece of
  code for each item of a list.
-/

import Mathlib.Data.List.Forall2

namespace Loops

/-- How a piece of code ends within its fuel. -/
inductive Attempt (ε α : Type) where
  | returned (result : α)
  | raised (error : ε)
  | unfinished
deriving DecidableEq

namespace Attempt

section Sequences

variable {ε α β : Type}

/-- One piece of code, then another. -/
def andThen (first : Attempt ε α) (next : α → Attempt ε β) : Attempt ε β :=
  match first with
  | returned result => next result
  | raised error => raised error
  | unfinished => unfinished

instance : Monad (Attempt ε) where
  pure := returned
  bind := andThen

@[simp] theorem returned_bind (result : α) (next : α → Attempt ε β) :
    ((returned result : Attempt ε α) >>= next) = next result := rfl

@[simp] theorem raised_bind (error : ε) (next : α → Attempt ε β) :
    ((raised error : Attempt ε α) >>= next) = raised error := rfl

@[simp] theorem unfinished_bind (next : α → Attempt ε β) :
    ((unfinished : Attempt ε α) >>= next) = unfinished := rfl

variable {first : Attempt ε α} {next : α → Attempt ε β}

/-- **A sequence returns when both parts do.** -/
theorem bind_eq_returned_iff {last : β} :
    (first >>= next) = returned last ↔
      ∃ result, first = returned result ∧ next result = returned last := by
  cases first <;> simp

/-- It raises the error of the first part that does. -/
theorem bind_eq_raised_iff {error : ε} :
    (first >>= next) = raised error ↔
      first = raised error ∨ ∃ result, first = returned result ∧ next result = raised error := by
  cases first <;> simp

/-- **It ends when both parts do.** -/
theorem bind_eq_unfinished_iff :
    (first >>= next) = unfinished ↔
      first = unfinished ∨ ∃ result, first = returned result ∧ next result = unfinished := by
  cases first <;> simp

end Sequences

/-! ### Lists -/

section Lists

variable {ε α β : Type} {f : α → Attempt ε β}

instance : LawfulMonad (Attempt ε) :=
  LawfulMonad.mk' _ (fun first => by cases first <;> rfl) (fun _ _ => rfl)
    (fun first _ _ => by cases first <;> rfl)

theorem mapM_cons (item : α) (items : List α) :
    (item :: items).mapM f =
      (f item >>= fun result => items.mapM f >>= fun results => returned (result :: results)) :=
  List.mapM_cons

/-- **All items return**, and their results are the result. -/
theorem mapM_eq_returned_iff {items : List α} {results : List β} :
    items.mapM f = returned results ↔
      List.Forall₂ (fun item result => f item = returned result) items results := by
  induction items generalizing results with
  | nil =>
    rw [List.forall₂_nil_left_iff]
    exact ⟨fun same => (Attempt.returned.inj same).symm, fun same => same ▸ rfl⟩
  | cons item items ih =>
    rw [mapM_cons, bind_eq_returned_iff]
    constructor
    · rintro ⟨result, one, rest⟩
      obtain ⟨results, all, same⟩ := bind_eq_returned_iff.mp rest
      rw [← Attempt.returned.inj same]
      exact .cons one (ih.mp all)
    · rintro (_ | ⟨one, all⟩)
      exact ⟨_, one, bind_eq_returned_iff.mpr ⟨_, ih.mpr all, rfl⟩⟩

/-- An error is the error of an item. -/
theorem exists_of_mapM_raised {items : List α} {error : ε} (raises : items.mapM f = raised error) :
    ∃ item ∈ items, f item = raised error := by
  induction items with
  | nil => cases raises
  | cons item items ih =>
    rw [mapM_cons] at raises
    rcases bind_eq_raised_iff.mp raises with one | ⟨result, _, rest⟩
    · exact ⟨item, List.mem_cons_self, one⟩
    · rcases bind_eq_raised_iff.mp rest with all | ⟨results, _, same⟩
      · obtain ⟨other, member, here⟩ := ih all
        exact ⟨other, List.mem_cons_of_mem _ member, here⟩
      · cases same

/-- If the fuel is used up, it is used up in an item. -/
theorem exists_of_mapM_unfinished {items : List α} (open_ : items.mapM f = unfinished) :
    ∃ item ∈ items, f item = unfinished := by
  induction items with
  | nil => cases open_
  | cons item items ih =>
    rw [mapM_cons] at open_
    rcases bind_eq_unfinished_iff.mp open_ with one | ⟨result, _, rest⟩
    · exact ⟨item, List.mem_cons_self, one⟩
    · rcases bind_eq_unfinished_iff.mp rest with all | ⟨results, _, same⟩
      · obtain ⟨other, member, here⟩ := ih all
        exact ⟨other, List.mem_cons_of_mem _ member, here⟩
      · cases same

end Lists

end Attempt

end Loops
