/-
**The `switch` statement with its fall-through.**

A labelled part of a `switch` ends in one of three ways (`Flow`): it falls into the part behind it, it
leaves the statement with `break`, or it throws. `switch` enters at the part with the label and goes on
from there; the default is the last part.

* `runParts_append_next` — parts that fall through are a prefix that only changes the state.
* `switch_of_fallThrough` — a `switch` without any `break` reaches its default from every label.
-/

import Mathlib.Data.List.Basic

namespace Switch

/-- How a part of a `switch` ends. -/
inductive Flow (σ ε : Type) where
  | next (state : σ)
  | leave (state : σ)
  | raise (error : ε) (state : σ)

/-- How a `switch` ends: behind it, or with an exception. -/
inductive Ended (σ ε : Type) where
  | normally (state : σ)
  | thrown (error : ε) (state : σ)

section Switch

variable {σ ε κ : Type}

/-- One part after another. -/
def runParts : List (σ → Flow σ ε) → σ → Ended σ ε
  | [], state => .normally state
  | part :: parts, state =>
    match part state with
    | .next state => runParts parts state
    | .leave state => .normally state
    | .raise error state => .thrown error state

/-- The statement; without a part for the value it enters at the default. -/
def switch [DecidableEq κ] (parts : List (κ × (σ → Flow σ ε))) (default : σ → Flow σ ε) (value : κ)
    (state : σ) : Ended σ ε :=
  runParts ((parts.dropWhile fun part => part.1 ≠ value).map Prod.snd ++ [default]) state

theorem runParts_append_next (bodies : List (σ → σ)) (parts : List (σ → Flow σ ε)) (state : σ) :
    runParts (bodies.map (fun body state => .next (body state)) ++ parts) state =
      runParts parts (bodies.foldl (fun state body => body state) state) := by
  induction bodies generalizing state with
  | nil => rfl
  | cons body bodies ih => exact ih (body state)

/-- **Without a `break`, every label leads to the default**, through the parts from the label on. -/
theorem switch_of_fallThrough [DecidableEq κ] (labels : List (κ × (σ → σ)))
    (default : σ → Flow σ ε) (value : κ) (state : σ) :
    switch (labels.map fun label => (label.1, fun state => .next (label.2 state))) default value
        state =
      runParts [default] (((labels.dropWhile fun label => label.1 ≠ value).map Prod.snd).foldl
        (fun state body => body state) state) := by
  have parts : ((labels.map fun label => (label.1, fun state => Flow.next (label.2 state))).dropWhile
      fun part : κ × (σ → Flow σ ε) => part.1 ≠ value).map Prod.snd =
        ((labels.dropWhile fun label => label.1 ≠ value).map Prod.snd).map
          fun body state => .next (body state) := by
    rw [List.dropWhile_map, List.map_map, List.map_map]
    rfl
  rw [switch, parts, runParts_append_next]

end Switch

end Switch
