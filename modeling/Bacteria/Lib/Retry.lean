/-
**Drawing until a draw is accepted.**

* `retry` — one turn of the loop: it leaves with an accepted value, or draws another one.
* `retry_returns` — it ends when there is an accepted value; `not_returns_of_rejected` — it does not when
  there is none.
* `retry_returns_iff` — it ends with the first draw that is accepted.
* `accepted`, `Collects` — the accepted draws among some; so many draws that are accepted.
* `TakesEveryResidue` — a source of numbers in which every remainder comes up again and again.
-/

import Bacteria.Lib.Loop
import Mathlib.Algebra.Order.Ring.Int
import Mathlib.Data.Nat.Find

namespace Loops

section Retry

variable {α : Type} (accept : α → Bool) (draw : ℕ → α)

/-- One turn: the value, and the number of the next draw. -/
def retry (state : α × ℕ) : α × ℕ ⊕ α × ℕ :=
  if accept state.1 then .inr state else .inl (draw state.2, state.2 + 1)

variable {accept draw} {a : α} {n : ℕ}

theorem retry_of_accepted (accepted : accept a = true) : retry accept draw (a, n) = .inr (a, n) :=
  if_pos accepted

theorem retry_of_rejected (rejected : accept a = false) :
    retry accept draw (a, n) = .inl (draw n, n + 1) :=
  if_neg (by rw [rejected]; exact Bool.false_ne_true)

/-- **The loop ends** with the first value or a draw, if one of them is accepted. -/
theorem retry_returns (accepted : accept a = true ∨ ∃ k, accept (draw (n + k)) = true) :
    ∃ result, Returns (retry accept draw) (a, n) result ∧ accept result.1 = true ∧
      (result.1 = a ∨ ∃ k, result.1 = draw k) := by
  have atOnce : ∀ {a : α} {n : ℕ}, accept a = true → Returns (retry accept draw) (a, n) (a, n) :=
    fun here => (returns_iff_of_done (retry_of_accepted here)).mpr rfl
  rcases accepted with here | ⟨k, later⟩
  · exact ⟨(a, n), atOnce here, here, Or.inl rfl⟩
  induction k generalizing a n with
  | zero =>
    cases first : accept a with
    | true => exact ⟨(a, n), atOnce first, first, Or.inl rfl⟩
    | false =>
      exact ⟨(draw n, n + 1), (returns_iff_of_next (retry_of_rejected first)).mpr (atOnce later),
        later, Or.inr ⟨n, rfl⟩⟩
  | succ k ih =>
    cases first : accept a with
    | true => exact ⟨(a, n), atOnce first, first, Or.inl rfl⟩
    | false =>
      have next : accept (draw (n + 1 + k)) = true := by
        rwa [Nat.add_assoc, Nat.add_comm 1 k]
      obtain ⟨result, returns, here, origin⟩ := @ih (draw n) (n + 1) next
      refine ⟨result, (returns_iff_of_next (retry_of_rejected first)).mpr returns, here, ?_⟩
      exact Or.inr (origin.elim (fun same => ⟨n, same⟩) id)

/-- **The loop does not end** when nothing is accepted. -/
theorem not_returns_of_rejected (first : accept a = false) (rejected : ∀ k, accept (draw k) = false)
    (result : α × ℕ) : ¬ Returns (retry accept draw) (a, n) result :=
  not_returns_of_progress (fun state => accept state.1 = false)
    (fun state here => ⟨_, retry_of_rejected here, rejected state.2⟩) first result

/-- **The loop ends with the first draw that is accepted.** -/
theorem retry_returns_iff (first : accept a = false) {result : α × ℕ} :
    Returns (retry accept draw) (a, n) result ↔
      ∃ k, (∀ j < k, accept (draw (n + j)) = false) ∧ accept (draw (n + k)) = true ∧
        result = (draw (n + k), n + k + 1) := by
  have ends : ∀ k, (∀ j < k, accept (draw (n + j)) = false) → accept (draw (n + k)) = true →
      Returns (retry accept draw) (a, n) (draw (n + k), n + k + 1) := by
    intro k rejected here
    refine (returns_iff_of_next (retry_of_rejected first)).mpr ?_
    have steps := @returns_iff_of_steps _ _ (retry accept draw) (fun j => (draw (n + j), n + j + 1)) k
      (fun j below => retry_of_rejected (rejected j below)) (draw (n + k), n + k + 1)
    exact steps.mpr ((returns_iff_of_done (retry_of_accepted here)).mpr rfl)
  constructor
  · intro returns
    by_cases some : ∃ k, accept (draw (n + k)) = true
    · refine ⟨Nat.find some, fun j below => ?_, Nat.find_spec some, ?_⟩
      · exact Bool.eq_false_iff.mpr (Nat.find_min some below)
      · exact returns_unique returns (ends _ (fun j below => Bool.eq_false_iff.mpr
          (Nat.find_min some below)) (Nat.find_spec some))
    · push Not at some
      refine absurd returns (not_returns_of_progress
        (fun state => accept state.1 = false ∧ n ≤ state.2) (fun state here => ?_) ⟨first, le_refl n⟩ result)
      refine ⟨_, retry_of_rejected here.1, ?_, Nat.le_succ_of_le here.2⟩
      have later := some (state.2 - n)
      rw [Nat.add_sub_cancel' here.2] at later
      exact Bool.eq_false_iff.mpr later
  · rintro ⟨k, rejected, here, rfl⟩
    exact ends k rejected here

end Retry

/-! ### Several draws -/

section Collecting

variable {α : Type} (accept : α → Bool) (draw : ℕ → α)

/-- Of the draws from `n` on up to the one before `m`, those that are accepted. -/
def accepted (n m : ℕ) : List α := ((List.range' n (m - n)).map draw).filter accept

/-- These are the accepted draws from `n` on, when the next one is `m`. -/
structure Collects (n : ℕ) (values : List α) (m : ℕ) : Prop where
  order : n ≤ m
  values : accepted accept draw n m = values
  /-- No draw was made after the last one that was accepted. -/
  last : n = m ∨ accept (draw (m - 1)) = true

variable {accept draw} {n m k : ℕ} {values : List α}

theorem accepted_self (n : ℕ) : accepted accept draw n n = [] := by
  rw [accepted, Nat.sub_self]
  rfl

/-- **The first accepted draw.** -/
theorem accepted_cons (rejected : ∀ j < k, accept (draw (n + j)) = false)
    (here : accept (draw (n + k)) = true) (below : n + k < m) :
    accepted accept draw n m = draw (n + k) :: accepted accept draw (n + k + 1) m := by
  obtain ⟨rest, rfl⟩ : ∃ rest, m = n + k + 1 + rest := ⟨m - (n + k + 1), by omega⟩
  have ranges : List.range' n (n + k + 1 + rest - n) =
      List.range' n k ++ (n + k) :: List.range' (n + k + 1) rest := by
    rw [show n + k + 1 + rest - n = k + (rest + 1) by omega, ← List.range'_append_1, List.range'_succ]
  have none : ((List.range' n k).map draw).filter accept = [] := by
    refine List.filter_eq_nil_iff.mpr fun value member => ?_
    obtain ⟨call, inside, rfl⟩ := List.mem_map.mp member
    have range := List.mem_range'_1.mp inside
    have no := rejected (call - n) (by omega)
    rw [Nat.add_sub_cancel' range.1] at no
    rw [no]
    exact Bool.false_ne_true
  rw [accepted, ranges, List.map_append, List.filter_append, none, List.nil_append, List.map_cons,
    List.filter_cons_of_pos here, accepted, Nat.add_sub_cancel_left]

/-- Only accepted draws are collected. -/
theorem Collects.accepts (collects : Collects accept draw n values m) :
    ∀ value ∈ values, accept value = true := by
  rintro value member
  rw [← collects.values] at member
  exact (List.mem_filter.mp member).2

/-- Without values nothing is drawn. -/
theorem collects_nil_iff : Collects accept draw n [] m ↔ n = m := by
  constructor
  · intro collects
    by_contra different
    have here := collects.last.resolve_left different
    have order := collects.order
    have member : draw (m - 1) ∈ accepted accept draw n m :=
      List.mem_filter.mpr ⟨List.mem_map.mpr ⟨m - 1, List.mem_range'_1.mpr (by omega), rfl⟩, here⟩
    rw [collects.values] at member
    cases member
  · rintro rfl
    exact ⟨le_refl n, accepted_self n, Or.inl rfl⟩

/-- **One more value**: the first accepted draw, and the rest behind it. -/
theorem collects_cons_iff {value : α} :
    Collects accept draw n (value :: values) m ↔
      ∃ k, (∀ j < k, accept (draw (n + j)) = false) ∧ accept (draw (n + k)) = true ∧
        value = draw (n + k) ∧ Collects accept draw (n + k + 1) values m := by
  constructor
  · intro collects
    have member : value ∈ accepted accept draw n m := by
      rw [collects.values]
      exact List.mem_cons_self
    obtain ⟨inRange, isAccepted⟩ := List.mem_filter.mp member
    obtain ⟨call, inside, rfl⟩ := List.mem_map.mp inRange
    have range := List.mem_range'_1.mp inside
    have some : ∃ k, accept (draw (n + k)) = true :=
      ⟨call - n, by rwa [Nat.add_sub_cancel' range.1]⟩
    have rejected : ∀ j < Nat.find some, accept (draw (n + j)) = false :=
      fun j below => Bool.eq_false_iff.mpr (Nat.find_min some below)
    have atMost : Nat.find some ≤ call - n :=
      Nat.find_min' some (by rwa [Nat.add_sub_cancel' range.1])
    have below : n + Nat.find some < m := by omega
    have values := collects.values
    rw [accepted_cons rejected (Nat.find_spec some) below] at values
    obtain ⟨same, rest⟩ := List.cons.inj values
    refine ⟨Nat.find some, rejected, Nat.find_spec some, same.symm, below, rest, ?_⟩
    exact Or.inr (collects.last.resolve_left (by omega))
  · rintro ⟨k, rejected, here, rfl, collects⟩
    have order := collects.order
    refine ⟨by omega, ?_, Or.inr ?_⟩
    · rw [accepted_cons rejected here (by omega), collects.values]
    · rcases collects.last with same | last
      · rwa [← same, Nat.add_sub_cancel]
      · exact last

end Collecting

/-- Every remainder of this modulus comes up again after every draw. -/
def TakesEveryResidue (source : ℕ → ℕ) (modulus : ℕ) : Prop :=
  ∀ residue < modulus, ∀ n, ∃ k, source (n + k) % modulus = residue

/-- Counting does that, for every modulus. -/
theorem id_takesEveryResidue (modulus : ℕ) : TakesEveryResidue id modulus := by
  intro residue below n
  refine ⟨n * modulus + residue - n, ?_⟩
  have enough : n ≤ n * modulus + residue :=
    (Nat.le_mul_of_pos_right n (Nat.zero_lt_of_lt below)).trans (Nat.le_add_right _ _)
  rw [id, Nat.add_sub_cancel' enough, Nat.mul_comm, Nat.mul_add_mod, Nat.mod_eq_of_lt below]

end Loops
