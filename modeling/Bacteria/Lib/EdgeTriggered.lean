/-
**Edge-triggered readiness.**

A descriptor has an event pending from the arrival of data until the next wait reports it; whatever
arrives in between is reported with it, and data that is left unread raises nothing.

* `Watch` — the descriptors with an event pending, and the batch of reported ones that are still to be
  handled.
* `Covered unread w` — each descriptor with unread data has an event pending or is in the batch:
  `covered_raise`, `covered_report`, `covered_forget` keep it, `covered_next_iff` says when handling an
  event does.
* `events w f` — how many events of `f` there still are.
* `Silent f w` — neither is the case for `f`; only new data for `f` ends it.
-/

import Mathlib.Data.Finset.Basic

namespace EdgeTriggered

/-- The events of an interest list; a batch names a descriptor once. -/
structure Watch (φ : Type) where
  pending : Finset φ
  batch : List φ
  once : batch.Nodup

namespace Watch

variable {φ : Type}

/-- Nothing has happened yet. -/
def start : Watch φ := ⟨∅, [], List.nodup_nil⟩

/-- The first event of the batch has been taken up. -/
def next (w : Watch φ) : Watch φ := { w with batch := w.batch.tail, once := w.once.tail }

@[simp] theorem next_pending (w : Watch φ) : w.next.pending = w.pending := rfl

@[simp] theorem next_batch (w : Watch φ) : w.next.batch = w.batch.tail := rfl

variable [DecidableEq φ]

/-- Data arrives for `f`. -/
def raise (w : Watch φ) (f : φ) : Watch φ := { w with pending := insert f w.pending }

/-- A wait reports these. -/
def report (w : Watch φ) (reported : List φ) (once : reported.Nodup) : Watch φ where
  pending := w.pending.filter (· ∉ reported)
  batch := reported
  once

/-- The event of `f` is no longer pending. -/
def forget (w : Watch φ) (f : φ) : Watch φ := { w with pending := w.pending.erase f }

end Watch

open Watch

section Covered

variable {φ : Type}

/-- **Nothing is overlooked**: what is unread will be reported, or handled. -/
def Covered (unread : φ → Prop) (w : Watch φ) : Prop :=
  ∀ f, unread f → f ∈ w.pending ∨ f ∈ w.batch

theorem covered_start {unread : φ → Prop} (nothing : ∀ f, ¬ unread f) : Covered unread start :=
  fun f some => absurd some (nothing f)

/-- **What has no event left has been read**, once the batch is handled. -/
theorem Covered.nothing_unread {unread : φ → Prop} {w : Watch φ} (covered : Covered unread w) {f : φ}
    (quiet : f ∉ w.pending) (idle : w.batch = []) : ¬ unread f := fun some => by
  rcases covered f some with waits | reported
  · exact quiet waits
  · rw [idle] at reported
    exact List.not_mem_nil reported

theorem Covered.mono {unread unread' : φ → Prop} {w : Watch φ} (fewer : ∀ f, unread' f → unread f)
    (covered : Covered unread w) : Covered unread' w := fun f left => covered f (fewer f left)

variable {unread unread' : φ → Prop} {w : Watch φ} {f : φ}

/-- **Handling an event keeps everything covered** exactly if what it leaves unread has a newer event
pending. -/
theorem covered_next_iff {batch : List φ} (head : w.batch = f :: batch)
    (same : ∀ g, g ≠ f → (unread' g ↔ unread g)) (covered : Covered unread w) :
    Covered unread' w.next ↔ (unread' f → f ∈ w.pending) := by
  have fresh : f ∉ batch := (List.nodup_cons.mp (head ▸ w.once)).1
  have rest : w.next.batch = batch := by rw [next_batch, head, List.tail_cons]
  constructor
  · intro after left
    rcases after f left with waits | reported
    · exact waits
    · exact absurd (rest ▸ reported) fresh
  · intro newer g left
    by_cases handled : g = f
    · subst handled
      exact Or.inl (newer left)
    · rcases covered g ((same g handled).mp left) with waits | reported
      · exact Or.inl waits
      · rw [head] at reported
        rw [rest]
        exact Or.inr ((List.mem_cons.mp reported).resolve_left handled)

variable [DecidableEq φ]

theorem covered_raise (fewer : ∀ g, g ≠ f → unread' g → unread g) (covered : Covered unread w) :
    Covered unread' (w.raise f) := by
  intro g left
  by_cases raised : g = f
  · exact Or.inl (raised ▸ Finset.mem_insert_self f w.pending)
  · exact (covered g (fewer g raised left)).imp_left Finset.mem_insert_of_mem

theorem covered_report (idle : w.batch = []) {reported : List φ} (once : reported.Nodup)
    (covered : Covered unread w) : Covered unread (w.report reported once) := by
  intro g left
  by_cases now : g ∈ reported
  · exact Or.inr now
  · rcases covered g left with waits | handled
    · exact Or.inl (Finset.mem_filter.mpr ⟨waits, now⟩)
    · rw [idle] at handled
      exact absurd handled List.not_mem_nil

theorem covered_forget (nothing : ¬ unread' f) (fewer : ∀ g, g ≠ f → unread' g → unread g)
    (covered : Covered unread w) : Covered unread' (w.forget f) := by
  intro g left
  have other : g ≠ f := fun same => nothing (same ▸ left)
  exact (covered g (fewer g other left)).imp_left fun waits => Finset.mem_erase.mpr ⟨other, waits⟩

end Covered

section Events

variable {φ : Type} [DecidableEq φ] {w : Watch φ} {f : φ}

/-- How many events of `f` are pending or to be handled. -/
def events (w : Watch φ) (f : φ) : Nat := (if f ∈ w.pending then 1 else 0) + w.batch.count f

/-- Fewer pending events and the same batch. -/
theorem events_le_of_pending {w' : Watch φ} (fewer : f ∈ w'.pending → f ∈ w.pending)
    (same : w'.batch = w.batch) : events w' f ≤ events w f := by
  rw [events, events, same]
  refine Nat.add_le_add_right ?_ _
  split
  · rename_i waits
    rw [if_pos (fewer waits)]
  · exact Nat.zero_le _

/-- **Data raises at most one event**, whatever is pending. -/
theorem events_raise_self : events (w.raise f) f ≤ events w f + 1 := by
  rw [events, events, Watch.raise, if_pos (Finset.mem_insert_self f w.pending), Nat.add_comm 1]
  exact Nat.add_le_add_right (Nat.le_add_left _ _) 1

theorem events_raise_other {g : φ} (other : f ≠ g) : events (w.raise g) f ≤ events w f :=
  events_le_of_pending (fun waits => (Finset.mem_insert.mp waits).resolve_left other) rfl

theorem events_forget (g : φ) : events (w.forget g) f ≤ events w f :=
  events_le_of_pending Finset.mem_of_mem_erase rfl

/-- **A wait only moves events** into the batch. -/
theorem events_report {reported : List φ} (once : reported.Nodup)
    (waits : f ∈ reported → f ∈ w.pending) : events (w.report reported once) f ≤ events w f := by
  by_cases now : f ∈ reported
  · have moved : f ∉ w.pending.filter (· ∉ reported) := fun waits =>
      (Finset.mem_filter.mp waits).2 now
    rw [events, events, Watch.report, if_neg moved, if_pos (waits now), Nat.zero_add]
    exact le_trans (List.nodup_iff_count_le_one.mp once f) (Nat.le_add_right 1 _)
  · rw [events, Watch.report, List.count_eq_zero_of_not_mem now, events]
    refine Nat.add_le_add ?_ (Nat.zero_le _)
    split
    · rename_i left
      rw [if_pos (Finset.mem_of_mem_filter f left)]
    · exact Nat.zero_le _

theorem events_next_self {batch : List φ} (head : w.batch = f :: batch) :
    events w.next f + 1 = events w f := by
  rw [events, events, Watch.next_pending, Watch.next_batch, head, List.tail_cons,
    List.count_cons_self, Nat.add_assoc]

theorem events_next : events w.next f ≤ events w f :=
  Nat.add_le_add_left ((List.tail_sublist w.batch).count_le f) _

end Events

section Silent

variable {φ : Type}

/-- No event of `f` is pending or to be handled. -/
def Silent (f : φ) (w : Watch φ) : Prop := f ∉ w.pending ∧ f ∉ w.batch

/-- What is not covered is silent. -/
theorem not_covered_iff {unread : φ → Prop} {w : Watch φ} :
    ¬ Covered unread w ↔ ∃ f, unread f ∧ Silent f w := by
  simp only [Covered, Silent, not_forall, not_or, exists_prop]

variable {f : φ} {w : Watch φ}

theorem Silent.next (silent : Silent f w) : Silent f w.next :=
  ⟨silent.1, fun handled => silent.2 (List.mem_of_mem_tail handled)⟩

variable [DecidableEq φ]

theorem Silent.raise {g : φ} (other : f ≠ g) (silent : Silent f w) : Silent f (w.raise g) :=
  ⟨fun waits => (Finset.mem_insert.mp waits).elim other silent.1, silent.2⟩

/-- **A wait does not report it.** -/
theorem Silent.report {reported : List φ} (once : reported.Nodup) (unreported : f ∉ reported)
    (silent : Silent f w) : Silent f (w.report reported once) :=
  ⟨fun waits => silent.1 (Finset.mem_of_mem_filter f waits), unreported⟩

theorem Silent.forget {g : φ} (silent : Silent f w) : Silent f (w.forget g) :=
  ⟨fun waits => silent.1 (Finset.mem_of_mem_erase waits), silent.2⟩

end Silent

end EdgeTriggered
