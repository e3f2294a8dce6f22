/-
**Runs of a program that handles one event after another.**

`step state event` is the state after one event, `run` the state after a list of them, and
`EveryStep P` says that `P` holds of every state of the run together with the event handled there.

* `run_induction` — what holds at the start and is kept by every step holds after every run;
  `run_history` is the same for a relation between the events so far and the state.
* `everyStep_induction` — what is kept by every step that meets `P` holds wherever such a run gets.
* `everyStep_iff_split` — `EveryStep` read over the prefixes of the run.
* `everyStep_congr` — the exchange of two properties that agree wherever an invariant holds.
* `run_iff_forall` — a property of the last state that each step keeps for certain events only.
-/

import Mathlib.Data.List.Induction

namespace Runs

section Runs

variable {σ ε : Type} (step : σ → ε → σ)

/-- The state after a list of events. -/
def run (state : σ) (events : List ε) : σ := events.foldl step state

@[simp] theorem run_nil (state : σ) : run step state [] = state := rfl

@[simp] theorem run_cons (state : σ) (event : ε) (events : List ε) :
    run step state (event :: events) = run step (step state event) events := rfl

@[simp] theorem run_append (state : σ) (first second : List ε) :
    run step state (first ++ second) = run step (run step state first) second :=
  List.foldl_append

/-- **The run rule**: an invariant of every step is an invariant of every run. -/
theorem run_induction (inv : σ → Prop) (keeps : ∀ state event, inv state → inv (step state event))
    {state : σ} (start : inv state) (events : List ε) : inv (run step state events) := by
  induction events generalizing state with
  | nil => exact start
  | cons event events ih => exact ih (keeps state event start)

/-- **The run rule with history**: a relation between the events so far and the state. -/
theorem run_history (rel : List ε → σ → Prop) {start : σ} (first : rel [] start)
    (keeps : ∀ history state event, rel history state →
      rel (history ++ [event]) (step state event)) (events : List ε) :
    rel events (run step start events) := by
  induction events using List.reverseRecOn with
  | nil => exact first
  | append_singleton events event ih =>
    rw [run_append]
    exact keeps _ _ _ ih

/-- `P` holds at every step of the run. -/
def EveryStep (P : σ → ε → Prop) : σ → List ε → Prop
  | _, [] => True
  | state, event :: events => P state event ∧ EveryStep P (step state event) events

instance decidableEveryStep (P : σ → ε → Prop) [∀ state event, Decidable (P state event)] :
    ∀ (state : σ) (events : List ε), Decidable (EveryStep step P state events)
  | _, [] => inferInstanceAs (Decidable True)
  | state, event :: events =>
    have := decidableEveryStep P (step state event) events
    inferInstanceAs (Decidable (P state event ∧ EveryStep step P (step state event) events))

variable {step}

theorem everyStep_append {P : σ → ε → Prop} {state : σ} {first second : List ε} :
    EveryStep step P state (first ++ second) ↔
      EveryStep step P state first ∧ EveryStep step P (run step state first) second := by
  induction first generalizing state with
  | nil => exact (true_and _).symm.to_iff
  | cons event first ih =>
    rw [List.cons_append, EveryStep, EveryStep, run_cons, ih, and_assoc]

/-- **The run rule under a condition**: what every step that meets the condition keeps holds after each
part of a run whose steps all meet it. -/
theorem everyStep_induction {P : σ → ε → Prop} (inv : σ → Prop)
    (keeps : ∀ state event, inv state → P state event → inv (step state event)) {state : σ}
    (start : inv state) {events before : List ε} (each : EveryStep step P state events)
    (part : before <+: events) : inv (run step state before) := by
  obtain ⟨after, rfl⟩ := part
  replace each := (everyStep_append.mp each).1
  induction before generalizing state with
  | nil => exact start
  | cons event before ih => exact ih (keeps state event start each.1) each.2

theorem everyStep_iff_split {P : σ → ε → Prop} {state : σ} {events : List ε} :
    EveryStep step P state events ↔
      ∀ before event after, events = before ++ event :: after →
        P (run step state before) event := by
  induction events generalizing state with
  | nil => simp [EveryStep]
  | cons first events ih =>
    rw [EveryStep, ih]
    constructor
    · rintro ⟨here, later⟩ before event after same
      cases before with
      | nil =>
        obtain ⟨rfl, _⟩ := List.cons.inj same
        exact here
      | cons other before =>
        obtain ⟨rfl, rest⟩ := List.cons.inj same
        exact later before event after rest
    · intro every
      refine ⟨every [] first events rfl, fun before event after same => ?_⟩
      exact every (first :: before) event after (by rw [same, List.cons_append])

/-- **Two step properties that agree under an invariant agree over every run.** The invariant may
rely on the property having held so far. -/
theorem everyStep_congr {P Q : σ → ε → Prop} (inv : σ → Prop)
    (keeps : ∀ state event, inv state → P state event → inv (step state event)) {events : List ε}
    (agree : ∀ event ∈ events, ∀ state, inv state → (P state event ↔ Q state event)) {state : σ}
    (start : inv state) : EveryStep step P state events ↔ EveryStep step Q state events := by
  induction events generalizing state with
  | nil => exact Iff.rfl
  | cons event events ih =>
    rw [EveryStep, EveryStep, ← agree event List.mem_cons_self state start]
    refine and_congr_right fun here => ih (fun other member => ?_) (keeps state event start here)
    exact agree other (List.mem_cons_of_mem _ member)

/-- **A property that some events destroy for good**: it holds at the end exactly if it held at the start
and no such event was handled. -/
theorem run_iff_forall {P : σ → ε → Prop} {good : σ → Prop} {kept : ε → Prop} (inv : σ → Prop)
    (keeps : ∀ state event, inv state → P state event → inv (step state event))
    (each : ∀ state event, inv state → P state event →
      (good (step state event) ↔ good state ∧ kept event)) {state : σ} (start : inv state)
    {events : List ε} (steps : EveryStep step P state events) :
    good (run step state events) ↔ good state ∧ ∀ event ∈ events, kept event := by
  induction events generalizing state with
  | nil => simp
  | cons event events ih =>
    rw [run_cons, ih (keeps state event start steps.1) steps.2, each state event start steps.1,
      List.forall_mem_cons, and_assoc]

end Runs

end Runs
