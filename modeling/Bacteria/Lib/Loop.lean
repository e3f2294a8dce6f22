/-
**Loops that may not end.**

One turn of a loop goes on with a new state (`inl`) or leaves with a result (`inr`). `loop` runs it on
fuel; `Returns turn state result` says that some fuel is enough.

* `returns_iff_of_next`, `returns_iff_of_done` — one turn.
* `returns_iff_of_steps` — as many turns as a sequence of states describes.
* `last_of_returns` — an invariant of the turns holds when a loop ends.
* `not_returns_of_progress` — a loop that goes on from every state of an invariant does not return.
* `returns_unique` — a loop returns at most one result.
* `returns_iff_of_image` — a loop whose turns are the images of another one's.
-/

import Mathlib.Data.Nat.Notation

namespace Loops

section Loops

variable {σ ρ : Type} (turn : σ → σ ⊕ ρ)

/-- The loop, for at most this many turns. -/
def loop : Nat → σ → Option ρ
  | 0, _ => none
  | fuel + 1, state =>
    match turn state with
    | .inl next => loop fuel next
    | .inr result => some result

/-- The loop ends with this result. -/
def Returns (state : σ) (result : ρ) : Prop := ∃ fuel, loop turn fuel state = some result

variable {turn}

theorem returns_iff_of_next {state next : σ} (goes : turn state = .inl next) {result : ρ} :
    Returns turn state result ↔ Returns turn next result := by
  constructor
  · rintro ⟨fuel, ends⟩
    cases fuel with
    | zero => cases ends
    | succ fuel =>
      rw [loop, goes] at ends
      exact ⟨fuel, ends⟩
  · rintro ⟨fuel, ends⟩
    exact ⟨fuel + 1, by rw [loop, goes]; exact ends⟩

theorem returns_iff_of_done {state : σ} {out : ρ} (done : turn state = .inr out) {result : ρ} :
    Returns turn state result ↔ result = out := by
  constructor
  · rintro ⟨fuel, ends⟩
    cases fuel with
    | zero => cases ends
    | succ fuel =>
      rw [loop, done] at ends
      exact (Option.some.inj ends).symm
  · rintro rfl
    exact ⟨1, by rw [loop, done]⟩

/-- **Many turns**: along a sequence of states that the turns follow. -/
theorem returns_iff_of_steps (states : ℕ → σ) {count : ℕ}
    (steps : ∀ k < count, turn (states k) = .inl (states (k + 1))) {result : ρ} :
    Returns turn (states 0) result ↔ Returns turn (states count) result := by
  induction count with
  | zero => exact Iff.rfl
  | succ count ih =>
    rw [ih fun k below => steps k (Nat.lt_succ_of_lt below)]
    exact returns_iff_of_next (steps count (Nat.lt_succ_self count))

/-- **What the turns keep** holds in the last state. -/
theorem last_of_returns (inv : σ → Prop)
    (keeps : ∀ state next, inv state → turn state = .inl next → inv next) {state : σ} {result : ρ}
    (start : inv state) (returns : Returns turn state result) :
    ∃ last, inv last ∧ turn last = .inr result := by
  obtain ⟨fuel, ends⟩ := returns
  induction fuel generalizing state with
  | zero => cases ends
  | succ fuel ih =>
    cases step : turn state with
    | inl next =>
      rw [loop, step] at ends
      exact ih (keeps state next start step) ends
    | inr out =>
      rw [loop, step] at ends
      obtain rfl := Option.some.inj ends
      exact ⟨state, start, step⟩

/-- **A loop that always goes on** does not return. -/
theorem not_returns_of_progress (inv : σ → Prop)
    (goes : ∀ state, inv state → ∃ next, turn state = .inl next ∧ inv next) {state : σ}
    (start : inv state) (result : ρ) : ¬ Returns turn state result := by
  rintro ⟨fuel, ends⟩
  induction fuel generalizing state with
  | zero => cases ends
  | succ fuel ih =>
    obtain ⟨next, step, kept⟩ := goes state start
    rw [loop, step] at ends
    exact ih kept ends

/-- **The result is unique.** -/
theorem returns_unique {state : σ} {first second : ρ} (one : Returns turn state first)
    (other : Returns turn state second) : first = second := by
  obtain ⟨fuel, ends⟩ := one
  induction fuel generalizing state with
  | zero => cases ends
  | succ fuel ih =>
    cases step : turn state with
    | inl next =>
      rw [loop, step] at ends
      exact ih ((returns_iff_of_next step).mp other) ends
    | inr out =>
      rw [loop, step] at ends
      rw [(returns_iff_of_done step).mp other]
      exact (Option.some.inj ends).symm

/-- More fuel does not change the result. -/
theorem loop_of_le {fuel more : Nat} (enough : fuel ≤ more) {state : σ} {result : ρ}
    (ends : loop turn fuel state = some result) : loop turn more state = some result := by
  induction fuel generalizing state more with
  | zero => cases ends
  | succ fuel ih =>
    cases more with
    | zero => cases enough
    | succ more =>
      rw [loop] at ends ⊢
      cases step : turn state with
      | inl next =>
        rw [step] at ends
        exact ih (Nat.le_of_succ_le_succ enough) ends
      | inr out =>
        rw [step] at ends
        exact ends

/-! ### Images -/

variable {τ π : Type} {other : τ → τ ⊕ π} {f : σ → τ} {g : ρ → π}

theorem loop_of_image (turns : ∀ state, other (f state) = (turn state).map f g) (fuel : Nat)
    (state : σ) : loop other fuel (f state) = (loop turn fuel state).map g := by
  induction fuel generalizing state with
  | zero => rfl
  | succ fuel ih =>
    rw [loop, loop, turns]
    cases turn state with
    | inl next => exact ih next
    | inr result => rfl

/-- **A loop and its image** end together. -/
theorem returns_iff_of_image (turns : ∀ state, other (f state) = (turn state).map f g)
    (injective : ∀ first second, g first = g second → first = second) {state : σ} {result : ρ} :
    Returns turn state result ↔ Returns other (f state) (g result) := by
  constructor
  · rintro ⟨fuel, ends⟩
    exact ⟨fuel, by rw [loop_of_image turns, ends]; rfl⟩
  · rintro ⟨fuel, ends⟩
    rw [loop_of_image turns] at ends
    cases found : loop turn fuel state with
    | none =>
      rw [found] at ends
      cases ends
    | some out =>
      rw [found] at ends
      exact ⟨fuel, by rw [found, injective out result (Option.some.inj ends)]⟩

end Loops

end Loops
