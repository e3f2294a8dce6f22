/-
**Logs of a program that manages its memory by hand.**

A log is the list of what happened: a block was allocated, a place was read, a block was freed. `β` are
the names of blocks, `ρ` the places that can be read.

* `allocations`, `frees` — how often a block was allocated and freed.
* `ReadsLive owner` — no place is read after the block it lies in was freed; `readsLive_append` cuts a
  log in two.
* `ReleasedLast` — a block is freed once, as the last thing that happens.
-/

import Mathlib.Data.List.Count

namespace AllocLog

/-- What can happen. -/
inductive Event (β ρ : Type) where
  | allocate (block : β)
  | read (place : ρ)
  | free (block : β)
deriving DecidableEq

section Log

variable {β ρ : Type}

/-- No place is read after its block was freed. -/
def ReadsLive (owner : ρ → β) (log : List (Event β ρ)) : Prop :=
  ∀ before place after, log = before ++ .read place :: after → .free (owner place) ∉ before

theorem readsLive_nil (owner : ρ → β) : ReadsLive owner [] := by
  intro before place after same
  cases before <;> cases same

/-- **A log cut in two**: the second half reads nothing that the first has freed. -/
theorem readsLive_append {owner : ρ → β} {first second : List (Event β ρ)} :
    ReadsLive owner (first ++ second) ↔
      ReadsLive owner first ∧ ReadsLive owner second ∧
        ∀ place, .read place ∈ second → .free (owner place) ∉ first := by
  constructor
  · intro live
    refine ⟨fun before place after same => ?_, fun before place after same => ?_,
      fun place member => ?_⟩
    · exact live before place (after ++ second) (by rw [same, List.append_assoc, List.cons_append])
    · have later := live (first ++ before) place after (by rw [same, List.append_assoc])
      exact fun freed => later (List.mem_append_right _ freed)
    · obtain ⟨before, after, same⟩ := List.append_of_mem member
      have later := live (first ++ before) place after (by rw [same, List.append_assoc])
      exact fun freed => later (List.mem_append_left _ freed)
  · rintro ⟨firstLive, secondLive, crossing⟩ before place after same
    rcases List.append_eq_append_iff.mp same with ⟨middle, rfl, tail⟩ | ⟨middle, rfl, tail⟩
    · have member : Event.read place ∈ second := by rw [tail]; simp
      intro freed
      rcases List.mem_append.mp freed with inFirst | inSecond
      · exact crossing place member inFirst
      · exact secondLive middle place after tail inSecond
    · cases middle with
      | nil =>
        rw [List.nil_append] at tail
        have member : Event.read place ∈ second := by rw [← tail]; simp
        rw [List.append_nil] at crossing
        exact crossing place member
      | cons event middle =>
        rw [List.cons_append, List.cons.injEq] at tail
        obtain ⟨rfl, _⟩ := tail
        exact firstLive before place middle rfl

theorem readsLive_singleton {owner : ρ → β} (event : Event β ρ) : ReadsLive owner [event] := by
  intro before place after same
  cases before with
  | nil => exact List.not_mem_nil
  | cons other before =>
    rw [List.cons_append, List.cons.injEq] at same
    exact absurd same.2.symm (List.append_ne_nil_of_right_ne_nil _ (List.cons_ne_nil _ _))

variable [DecidableEq β] [DecidableEq ρ]

/-- How often a block was allocated. -/
def allocations (log : List (Event β ρ)) (block : β) : Nat := log.count (.allocate block)

/-- How often a block was freed. -/
def frees (log : List (Event β ρ)) (block : β) : Nat := log.count (.free block)

@[simp] theorem frees_nil (block : β) : frees ([] : List (Event β ρ)) block = 0 := rfl

@[simp] theorem allocations_append (first second : List (Event β ρ)) (block : β) :
    allocations (first ++ second) block = allocations first block + allocations second block :=
  List.count_append

@[simp] theorem frees_append (first second : List (Event β ρ)) (block : β) :
    frees (first ++ second) block = frees first block + frees second block := List.count_append

theorem frees_eq_zero {log : List (Event β ρ)} {block : β} :
    frees log block = 0 ↔ .free block ∉ log := List.count_eq_zero

/-- The block is freed once, and nothing happens after it. -/
def ReleasedLast (log : List (Event β ρ)) (block : β) : Prop :=
  ∃ before, log = before ++ [.free block] ∧ frees before block = 0

end Log

end AllocLog
