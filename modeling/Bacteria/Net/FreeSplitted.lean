/-
**`free_splitted` of libbacteria/net.c, as a log of what it reads and frees.**

* `freeTurns_spec` — one induction over the countdown: only strings below the counter are freed, each at
  most once, and only the counted ones are read.
* `last_not_freed` — the last string of an array is never freed.
* `frees_le_one` — no string is freed twice.
* `readsLive_iff` — a string is read after it was freed exactly if one from the third on is non-empty.
* `releasedOnce_iff` — all strings are freed, once each, exactly for the empty array.
-/

import Bacteria.Lib.AllocLog
import Bacteria.Lib.CString

namespace Bacteria.Net

open Clib AllocLog

/-- What `free_splitted` is given: the strings of the array, and the array. -/
inductive Owned where
  | field (index : Nat)
  | array
deriving DecidableEq

/-- A log of `free_splitted`: the strings are read by their index. -/
abbrev FreeLog := List (Event Owned Nat)

/-- `what[n][0]`: the first byte of a string, its terminator if it is empty. A string that was freed
reads as whatever the allocator has left there. -/
def firstByte (what : Nat → CString) (stale : Nat → Byte) (log : FreeLog) (n : Nat) : Byte :=
  if .free (.field n) ∈ log then stale n else (what n).bytes.headD 0

/-- The loop of `free_splitted` from the turn with counter `n` on. -/
def freeTurns (what : Nat → CString) (stale : Nat → Byte) : Nat → FreeLog → FreeLog
  | 0, log => log
  | n + 1, log =>
    let first := firstByte what stale log (n + 1)
    let log := log ++ [.read (n + 1)]
    if first = 0 then freeTurns what stale n log
    else freeTurns what stale n (log ++ [.free (.field n)])

/-- `free_splitted(what, n)`: the test of the loop leaves `n - 1` in the counter. -/
def freeSplitted (what : Nat → CString) (stale : Nat → Byte) : Nat → FreeLog
  | 0 => [.free .array]
  | n + 1 => freeTurns what stale n [] ++ [.free .array]

/-- Every string is freed once, the array after them, and no string is read after it was freed. -/
structure ReleasedOnce (n : Nat) (log : FreeLog) : Prop where
  strings : ∀ i < n, frees log (.field i) = 1
  array : ReleasedLast log .array
  live : ReadsLive Owned.field log

section FreeSplitted

variable (what : Nat → CString) (stale : Nat → Byte)

/-! ### One turn -/

/-- What the turn with counter `n + 1` adds to the log. -/
def turn (log : FreeLog) (n : Nat) : FreeLog :=
  if firstByte what stale log (n + 1) = 0 then [.read (n + 1)]
  else [.read (n + 1), .free (.field n)]

theorem freeTurns_succ (n : Nat) (log : FreeLog) :
    freeTurns what stale (n + 1) log = freeTurns what stale n (log ++ turn what stale log n) := by
  rw [freeTurns, turn]
  by_cases empty : firstByte what stale log (n + 1) = 0
  · rw [if_pos empty, if_pos empty]
  · rw [if_neg empty, if_neg empty, List.append_assoc, List.singleton_append]

/-- The events of a countdown from `n`: it frees only strings below the counter, each at most once, and
reads only strings it has counted. -/
structure Countdown (n : Nat) (log : FreeLog) : Prop where
  strings : ∀ i, frees log (.field i) ≤ if i < n then 1 else 0
  array : frees log .array = 0
  reads : ∀ i, .read i ∈ log → 0 < i ∧ i ≤ n

variable {what stale}

theorem frees_turn (log : FreeLog) (n i : Nat) :
    frees (turn what stale log n) (.field i) ≤ if i = n then 1 else 0 := by
  rw [turn]
  by_cases empty : firstByte what stale log (n + 1) = 0
  · simp [empty, frees]
  · by_cases here : i = n
    · simp [empty, here, frees]
    · simp [empty, here, frees, Ne.symm here]

theorem frees_turn_array (log : FreeLog) (n : Nat) :
    frees (turn what stale log n) .array = 0 := by
  rw [turn, frees_eq_zero]
  split <;> simp

theorem reads_turn {log : FreeLog} {n i : Nat} (member : .read i ∈ turn what stale log n) :
    i = n + 1 := by
  rw [turn] at member
  split at member <;> simpa using member

/-- **A turn in front of a countdown** is a countdown from one more. -/
theorem Countdown.turn {n : Nat} {more : FreeLog} (later : Countdown n more) (log : FreeLog) :
    Countdown (n + 1) (turn what stale log n ++ more) where
  strings i := by
    have here := @frees_turn what stale log n i
    have below := later.strings i
    rw [frees_append]
    split at here <;> split at below <;> split <;> omega
  array := by rw [frees_append, frees_turn_array, later.array]
  reads i member := by
    rcases List.mem_append.mp member with here | below
    · have := reads_turn here
      omega
    · have := later.reads i below
      omega

variable (what stale)

/-- **The loop**: what it adds to a log is a countdown. -/
theorem freeTurns_spec (n : Nat) (log : FreeLog) :
    ∃ more, freeTurns what stale n log = log ++ more ∧ Countdown n more := by
  induction n generalizing log with
  | zero => exact ⟨[], (List.append_nil log).symm, by simp, rfl, by simp⟩
  | succ n ih =>
    obtain ⟨more, turns, later⟩ := ih (log ++ turn what stale log n)
    exact ⟨turn what stale log n ++ more, by rw [freeTurns_succ, turns, List.append_assoc],
      later.turn log⟩

/-! ### The whole call -/

theorem freeSplitted_spec (n : Nat) :
    ∃ more, freeSplitted what stale n = more ++ [.free .array] ∧ Countdown (n - 1) more := by
  cases n with
  | zero => exact ⟨[], rfl, by simp, rfl, by simp⟩
  | succ n =>
    obtain ⟨more, turns, counted⟩ := freeTurns_spec what stale n []
    exact ⟨more, by rw [freeSplitted, turns, List.nil_append], counted⟩

/-- The array is freed once, after everything else. -/
theorem array_released (n : Nat) : ReleasedLast (freeSplitted what stale n) .array := by
  obtain ⟨more, shape, counted⟩ := freeSplitted_spec what stale n
  exact ⟨more, shape, counted.array⟩

theorem frees_field_le (n i : Nat) :
    frees (freeSplitted what stale n) (.field i) ≤ if i + 1 < n then 1 else 0 := by
  obtain ⟨more, shape, counted⟩ := freeSplitted_spec what stale n
  have bound := counted.strings i
  have array : frees ([.free .array] : FreeLog) (.field i) = 0 := by simp [frees_eq_zero]
  rw [shape, frees_append, array]
  split at bound <;> split <;> omega

/-- **No string is freed twice.** -/
theorem frees_le_one (n i : Nat) : frees (freeSplitted what stale n) (.field i) ≤ 1 := by
  have bound := frees_field_le what stale n i
  split at bound <;> omega

/-- **The last string is never freed.** -/
theorem last_not_freed (n : Nat) : frees (freeSplitted what stale (n + 1)) (.field n) = 0 := by
  have bound := frees_field_le what stale (n + 1) n
  rw [if_neg (Nat.lt_irrefl _)] at bound
  exact Nat.le_zero.mp bound

/-! ### Reads of freed strings -/

/-- The strings from index 2 to `n` are empty. -/
def EmptyFromSecond (n : Nat) : Prop := ∀ i, 1 < i → i ≤ n → firstByte what stale [] i = 0

theorem firstByte_of_unfreed {log : FreeLog} {n : Nat} (unfreed : .free (.field n) ∉ log) :
    firstByte what stale log n = firstByte what stale [] n := by
  rw [firstByte, firstByte, if_neg unfreed, if_neg List.not_mem_nil]

/-- **A turn that has freed a string is followed by one that reads it.** -/
theorem not_readsLive_of_freed (n : Nat) (log : FreeLog) (freed : .free (.field (n + 1)) ∈ log) :
    ¬ ReadsLive Owned.field (freeTurns what stale (n + 1) log) := by
  intro alive
  obtain ⟨more, turns, _⟩ := freeTurns_spec what stale n (log ++ turn what stale log n)
  rw [freeTurns_succ, turns] at alive
  obtain ⟨_, _, crossing⟩ := readsLive_append.mp (readsLive_append.mp alive).1
  refine crossing (n + 1) ?_ freed
  rw [turn]
  split <;> simp

/-- **The countdown from strings that are not freed yet.** -/
theorem freeTurns_live_iff (n : Nat) {log : FreeLog} (live : ReadsLive Owned.field log)
    (unfreed : ∀ i ≤ n, .free (.field i) ∉ log) :
    ReadsLive Owned.field (freeTurns what stale n log) ↔ EmptyFromSecond what stale n := by
  induction n generalizing log with
  | zero => exact ⟨fun _ i one bound => by omega, fun _ => live⟩
  | succ n ih =>
    have here := firstByte_of_unfreed what stale (unfreed (n + 1) (le_refl _))
    have readLive : ReadsLive Owned.field (log ++ [.read (n + 1)]) := by
      refine readsLive_append.mpr ⟨live, readsLive_singleton _, fun i member => ?_⟩
      obtain rfl : i = n + 1 := by simpa using member
      exact unfreed (n + 1) (le_refl _)
    by_cases empty : firstByte what stale [] (n + 1) = 0
    · -- an empty string frees nothing, and the turns below start from unfreed strings again
      have still : ∀ i ≤ n, .free (.field i) ∉ log ++ [.read (n + 1)] := by
        intro i bound
        simpa using unfreed i (by omega)
      rw [freeTurns_succ, turn, here, if_pos empty, ih readLive still]
      refine ⟨fun below i one bound => ?_, fun all i one bound => all i one (by omega)⟩
      rcases Nat.lt_or_eq_of_le bound with smaller | rfl
      · exact below i one (by omega)
      · exact empty
    · rw [freeTurns_succ, turn, here, if_neg empty]
      cases n with
      | zero =>
        have freedLast : ReadsLive Owned.field (log ++ [.read 1] ++ [.free (.field 0)]) := by
          refine readsLive_append.mpr ⟨readLive, readsLive_singleton _, fun i member => ?_⟩
          simp at member
        rw [List.append_assoc, List.singleton_append] at freedLast
        exact ⟨fun _ i one bound => by omega, fun _ => freedLast⟩
      | succ n =>
        refine ⟨fun alive => ?_, fun all => absurd (all (n + 2) (by omega) (le_refl _)) empty⟩
        exact absurd alive (not_readsLive_of_freed what stale n _ (by simp))

/-- **A string is read after it was freed exactly if one from the third on is non-empty.** -/
theorem readsLive_iff (n : Nat) :
    ReadsLive Owned.field (freeSplitted what stale n) ↔ EmptyFromSecond what stale (n - 1) := by
  have ended : ∀ log : FreeLog, ReadsLive Owned.field (log ++ [.free .array]) ↔
      ReadsLive Owned.field log := by
    intro log
    rw [readsLive_append]
    refine ⟨fun live => live.1, fun live => ⟨live, readsLive_singleton _, fun i member => ?_⟩⟩
    simp at member
  cases n with
  | zero =>
    refine ⟨fun _ i one bound => by omega, fun _ => ?_⟩
    exact readsLive_singleton (Event.free Owned.array)
  | succ n =>
    rw [freeSplitted, ended]
    exact freeTurns_live_iff what stale n (readsLive_nil _) fun _ _ => List.not_mem_nil

/-- **All strings are freed, once each, exactly for the empty array.** -/
theorem releasedOnce_iff (n : Nat) : ReleasedOnce n (freeSplitted what stale n) ↔ n = 0 := by
  constructor
  · intro released
    cases n with
    | zero => rfl
    | succ n =>
      have once := released.strings n (Nat.lt_succ_self n)
      rw [last_not_freed] at once
      cases once
  · rintro rfl
    refine ⟨fun i bound => absurd bound (Nat.not_lt_zero i), array_released what stale 0, ?_⟩
    exact (readsLive_iff what stale 0).mpr fun i one bound => by omega

end FreeSplitted

/-- The three strings `a`, `b`, `c`. -/
def threeStrings (i : Nat) : CString :=
  match i with
  | 0 => ⟨ascii "a", by decide⟩
  | 1 => ⟨ascii "b", by decide⟩
  | _ => ⟨ascii "c", by decide⟩

/-- **Of three strings the last is lost, and the second is read after it was freed.** -/
theorem threeStrings_misused :
    freeSplitted threeStrings (fun _ => 1) 3 =
        [.read 2, .free (.field 1), .read 1, .free (.field 0), .free .array] ∧
      ¬ ReleasedOnce 3 (freeSplitted threeStrings (fun _ => 1) 3) := by
  refine ⟨by decide, fun released => ?_⟩
  have once := released.strings 2 (by decide)
  rw [last_not_freed] at once
  cases once

end Bacteria.Net
