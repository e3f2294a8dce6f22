/-
**What the wrapper objects own.**

* `Holds` — a wrapper holds a live handle in a field.
* `Owns` — what a call is to do with the handles; `Proper` — when it does.
* `unfreed_after` — no call frees anything, from which `owns_iff`.
* `owns_iff_proper` — one call; `everyStep_owns_iff` — every run.
-/

import Bacteria.Lib.Runs
import Bacteria.Scripts.Wrappers

namespace Bacteria.Scripts

open Handles Lua Runs

/-! ### Ownership -/

section Ownership

variable {ν : Type}

/-- The wrapper that has the field holds this handle in it. -/
def Holds (w : World ν) (place : Place) (identity : Nat) : Prop :=
  w.objects[place.1]? = some (.wrapper place.2.cls) ∧
    (w.fields place).value = .object identity ∧ w.Live (kindOf place) identity

/-- The fields that the call is to clear. -/
def Call.clears : Call ν → List Place
  | gd n .clear => [(n, .gd)]
  | baes n .clear => [(n, .aesdataEnc), (n, .aesdataDec)]
  | keyPair n .clear => [(n, .keyPair)]
  | _ => []

/-- The fields whose handle the call is to replace. -/
def Call.replaces : Call ν → List Place
  | gd n (.setGD _) => [(n, .gd)]
  | gd n (.reopenFromFile _) => [(n, .gd)]
  | _ => []

variable [DecidableEq ν]

/-- **What a call is to do with the handles.** -/
structure Owns (w : World ν) (call : Call ν) : Prop where
  fields : (step w call).Owned kindOf
  /-- A handle that is cleared is freed once, and nil is left. -/
  clear : ∀ place ∈ call.clears, ∀ identity, Holds w place identity →
    (step w call).log.count (.free identity) = w.log.count (.free identity) + 1 ∧
      ((step w call).fields place).value = .nil
  /-- A handle that is replaced is freed before anything is stored. -/
  replace : ∀ place ∈ call.replaces, ∀ identity, Holds w place identity →
    ∀ before value after,
      (step w call).log = w.log ++ before ++ .store place value :: after →
        .free identity ∈ before

/-- **When a method of a gd object does it.** -/
def GdMethod.Proper (w : World ν) (n : Nat) : GdMethod ν → Prop
  | setGD gd => (∀ identity, ¬ Holds w (n, .gd) identity) ∧ (gd = .nil ∨ w.Handle .image gd)
  | reopenFromFile result => result = .raised
  | initImage result => result ≠ .hollow
  | initImageFromFile result => result ≠ .hollow
  | clear => ∀ identity, ¬ Holds w (n, .gd) identity
  | other => True

/-- Of a baes object. -/
def BaesMethod.Proper (w : World ν) (n : Nat) : BaesMethod → Prop
  | setAESDataEnc result => result ≠ .hollow
  | encrypt result => result ≠ .hollow
  | decrypt result => result ≠ .hollow
  | clear => ∀ identity, ¬ Holds w (n, .aesdataEnc) identity ∧ ¬ Holds w (n, .aesdataDec) identity
  | other => True

/-- Of a key pair. -/
def KeyPairMethod.Proper (w : World ν) (n : Nat) : KeyPairMethod → Prop
  | initKeyPair result => result ≠ .hollow
  | initKeyPairFromFile result => result ≠ .hollow
  | clear => ∀ identity, ¬ Holds w (n, .keyPair) identity
  | other => True

/-- **When a call does it.** -/
def Proper (w : World ν) : Call ν → Prop
  | .newKeyPair keyPair => keyPair.toBoolean = false ∨ w.Handle .keyPair keyPair
  | .gd n m => w.objects[n]? = some (.wrapper .gd) → m.Proper w n
  | .baes n m => w.objects[n]? = some (.wrapper .baes) → m.Proper w n
  | .keyPair n m => w.objects[n]? = some (.wrapper .keyPair) → m.Proper w n
  | _ => True

end Ownership

/-! ### Along a run -/

section Along

variable {ν : Type} {w : World ν} {n : Nat}

/-- **What is kept along a run of calls that own their handles**: nothing is ever freed. -/
structure Kept (w : World ν) : Prop where
  owned : w.Owned kindOf
  unfreed : w.Unfreed

theorem kept_start : Kept (Heap.start : World ν) where
  owned place set := Bool.noConfusion set
  unfreed identity member := by cases member

theorem unfreed_gd (unfreed : w.Unfreed) (m : GdMethod ν) : (m.after w n).Unfreed := by
  cases m with
  | setGD gd => exact unfreed_put unfreed
  | reopenFromFile result =>
    cases result with
    | raised => exact unfreed
    | _ => exact unfreed_put (unfreed_assigned unfreed _)
  | initImage result => exact unfreed_assigned unfreed result
  | initImageFromFile result => exact unfreed_assigned unfreed result
  | clear => exact unfreed
  | other => exact unfreed

theorem unfreed_baes (unfreed : w.Unfreed) (m : BaesMethod) : (m.after w n).Unfreed := by
  cases m with
  | setAESDataEnc result => exact unfreed_assigned unfreed result
  | encrypt result => exact unfreed_assigned unfreed result
  | decrypt result => exact unfreed_assigned unfreed result
  | clear => exact unfreed
  | other => exact unfreed

theorem unfreed_keyPair (unfreed : w.Unfreed) (m : KeyPairMethod) : (m.after w n).Unfreed := by
  cases m with
  | initKeyPair result =>
    have further : ((w.add .table).add .table).Unfreed := unfreed
    exact unfreed_assigned further result
  | initKeyPairFromFile result =>
    cases result with
    | nothing => exact unfreed
    | _ => exact unfreed_assigned unfreed _
  | clear => exact unfreed
  | other => exact unfreed

/-- **No call frees anything.** -/
theorem unfreed_after (unfreed : w.Unfreed) (call : Call ν) : (call.after w).Unfreed := by
  cases call with
  | newGd => exact unfreed
  | newBaes => exact unfreed
  | newKeyPair pair =>
    rw [Call.after]
    split
    · exact unfreed
    · exact unfreed
  | native kind => exact unfreed
  | gd n m =>
    rw [Call.after]
    split
    · exact unfreed_gd unfreed m
    · exact unfreed
  | baes n m =>
    rw [Call.after]
    split
    · exact unfreed_baes unfreed m
    · exact unfreed
  | keyPair n m =>
    rw [Call.after]
    split
    · exact unfreed_keyPair unfreed m
    · exact unfreed

variable [DecidableEq ν]

/-- **Ownership where nothing is freed**: nothing may be there to clear, and nothing be stored over a
handle. -/
theorem owns_iff (unfreed : w.Unfreed) (call : Call ν) :
    Owns w call ↔ (call.after w).Owned kindOf ∧
      (∀ place ∈ call.clears, ∀ identity, ¬ Holds w place identity) ∧
      ∀ place ∈ call.replaces, ∀ identity, Holds w place identity →
        ∀ before value after,
          (call.after w).log ≠ w.log ++ before ++ .store place value :: after := by
  have later := unfreed_after unfreed call
  constructor
  · intro owns
    obtain ⟨fields, clear, replace⟩ := owns
    rw [step_eq] at fields clear replace
    refine ⟨fields, fun place member identity holds => ?_, ?_⟩
    · have once := (clear place member identity holds).1
      rw [List.count_eq_zero_of_not_mem (later identity)] at once
      omega
    · intro place member identity holds before value after same
      have freed := replace place member identity holds before value after same
      refine later identity ?_
      rw [same]
      exact List.mem_append_left _ (List.mem_append_right _ freed)
  · rintro ⟨fields, clear, replace⟩
    refine ⟨by rwa [step_eq], fun place member identity holds => ?_, ?_⟩
    · exact absurd holds (clear place member identity)
    · intro place member identity holds before value after same
      rw [step_eq] at same
      exact absurd same (replace place member identity holds before value after)

/-- **A call that is to clear and to replace nothing.** -/
theorem owns_iff_owned {call : Call ν} (clears : call.clears = []) (replaces : call.replaces = []) :
    Owns w call ↔ (call.after w).Owned kindOf := by
  constructor
  · intro owns
    rw [← step_eq]
    exact owns.fields
  · intro owned
    refine ⟨by rwa [step_eq], fun place member => ?_, fun place member => ?_⟩
    · rw [clears] at member
      cases member
    · rw [replaces] at member
      cases member

/-- **A call that does nothing** must have nothing to clear. -/
theorem owns_iff_of_same {call : Call ν} (kept : Kept w) (same : call.after w = w) :
    Owns w call ↔ ∀ place ∈ call.clears, ∀ identity, ¬ Holds w place identity := by
  rw [owns_iff kept.unfreed, same]
  refine ⟨fun owns => owns.2.1, fun clear => ⟨kept.owned, clear, ?_⟩⟩
  intro place _ identity _ before value after stored
  have longer := congrArg List.length stored
  rw [List.length_append, List.length_append, List.length_cons] at longer
  omega

omit [DecidableEq ν] in
/-- A call clears fields of its own wrapper. -/
theorem wrapper_of_mem_clears {call : Call ν} {place : Place} (member : place ∈ call.clears) :
    call.wrapper? = some (place.1, place.2.cls) := by
  cases call with
  | gd n m =>
    cases m with
    | clear =>
      obtain rfl := List.mem_singleton.mp member
      rfl
    | _ => cases member
  | baes n m =>
    cases m with
    | clear =>
      rcases List.mem_pair.mp member with rfl | rfl
      · rfl
      · rfl
    | _ => cases member
  | keyPair n m =>
    cases m with
    | clear =>
      obtain rfl := List.mem_singleton.mp member
      rfl
    | _ => cases member
  | _ => cases member

/-- **Without its wrapper a method owns its handles.** -/
theorem owns_of_missing {call : Call ν} {cls : Class} (kept : Kept w)
    (wrapper : call.wrapper? = some (n, cls)) (missing : w.objects[n]? ≠ some (.wrapper cls))
    (same : call.after w = w) : Owns w call := by
  refine (owns_iff_of_same kept same).mpr fun place member identity holds => ?_
  have own := (wrapper_of_mem_clears member).symm.trans wrapper
  obtain ⟨number, ofClass⟩ := Prod.mk.inj (Option.some.inj own)
  rw [← number, ← ofClass] at missing
  exact missing holds.1

/-- **A method of a gd object.** -/
theorem owns_gd_iff (kept : Kept w) (m : GdMethod ν)
    (after : (Call.gd n m).after w = m.after w n) : Owns w (.gd n m) ↔ m.Proper w n := by
  cases m with
  | setGD gd =>
    rw [owns_iff kept.unfreed, after]
    constructor
    · rintro ⟨fields, _, replace⟩
      refine ⟨fun identity holds => ?_, stored_of_owned fields⟩
      have first := replace (n, .gd) List.mem_cons_self identity holds [] gd []
      rw [List.append_nil] at first
      exact first rfl
    · rintro ⟨empty, stored⟩
      refine ⟨owned_put kept.owned stored, fun _ member => (by cases member), ?_⟩
      intro place member identity holds
      obtain rfl := List.mem_singleton.mp member
      exact absurd holds (empty identity)
  | reopenFromFile result =>
    cases result with
    | raised =>
      refine iff_of_true ((owns_iff_of_same kept after).mpr fun _ member => ?_) rfl
      cases member
    | _ =>
      -- the boolean that `initImageFromFile` returns is stored last
      refine iff_of_false (fun owns => ?_) (fun same => by cases same)
      have fields := owns.fields
      rw [step_eq, after] at fields
      rcases stored_of_owned fields with isNil | handle
      · cases isNil
      · exact handle
  | initImage result =>
    rw [owns_iff_owned rfl rfl, after]
    exact owned_assigned_iff kept.owned kept.unfreed
  | initImageFromFile result =>
    rw [owns_iff_owned rfl rfl, after]
    exact owned_assigned_iff kept.owned kept.unfreed
  | clear => exact (owns_iff_of_same kept after).trans List.forall_mem_singleton
  | other => exact iff_of_true ((owns_iff_owned rfl rfl).mpr (after ▸ kept.owned)) trivial

/-- **A method of a baes object.** -/
theorem owns_baes_iff (kept : Kept w) (m : BaesMethod)
    (after : (Call.baes n m : Call ν).after w = m.after w n) :
    Owns w (.baes n m) ↔ m.Proper w n := by
  cases m with
  | setAESDataEnc result =>
    rw [owns_iff_owned rfl rfl, after]
    exact owned_assigned_iff kept.owned kept.unfreed
  | encrypt result =>
    rw [owns_iff_owned rfl rfl, after]
    exact owned_assigned_iff kept.owned kept.unfreed
  | decrypt result =>
    rw [owns_iff_owned rfl rfl, after]
    exact owned_assigned_iff kept.owned kept.unfreed
  | clear =>
    refine (owns_iff_of_same kept after).trans ⟨fun empty identity => ?_, fun empty => ?_⟩
    · exact ⟨empty _ List.mem_cons_self identity,
        empty _ (List.mem_cons_of_mem _ List.mem_cons_self) identity⟩
    · intro place member identity
      rcases List.mem_pair.mp member with rfl | rfl
      · exact (empty identity).1
      · exact (empty identity).2
  | other => exact iff_of_true ((owns_iff_owned rfl rfl).mpr (after ▸ kept.owned)) trivial

/-- **A method of a key pair.** -/
theorem owns_keyPair_iff (kept : Kept w) (m : KeyPairMethod)
    (after : (Call.keyPair n m : Call ν).after w = m.after w n) :
    Owns w (.keyPair n m) ↔ m.Proper w n := by
  have assigned : ∀ result, (w.assigned .keyPair (n, .keyPair) result).Owned kindOf ↔
      result ≠ .hollow := fun _ => owned_assigned_iff kept.owned kept.unfreed
  cases m with
  | initKeyPair result =>
    rw [owns_iff_owned rfl rfl, after]
    exact owned_assigned_iff (owned_add (owned_add kept.owned)) kept.unfreed
  | initKeyPairFromFile result =>
    rw [owns_iff_owned rfl rfl, after]
    cases result with
    | raised => exact assigned .raised
    | nothing => exact iff_of_true kept.owned fun same => by cases same
    | hollow => exact assigned .hollow
    | native => exact assigned .native
  | clear => exact (owns_iff_of_same kept after).trans List.forall_mem_singleton
  | other => exact iff_of_true ((owns_iff_owned rfl rfl).mpr (after ▸ kept.owned)) trivial

/-- **A call owns its handles exactly if it is proper**, where nothing was freed. -/
theorem owns_iff_proper (kept : Kept w) (call : Call ν) : Owns w call ↔ Proper w call := by
  cases call with
  | newGd =>
    refine iff_of_true ((owns_iff_owned rfl rfl).mpr ?_) trivial
    exact owned_init (owned_add kept.owned)
  | newBaes =>
    refine iff_of_true ((owns_iff_owned rfl rfl).mpr ?_) trivial
    exact owned_init (owned_add (owned_init (owned_add (owned_add kept.owned))))
  | newKeyPair pair =>
    rw [owns_iff_owned rfl rfl, Call.after, Proper]
    cases truth : pair.toBoolean with
    | false => exact iff_of_true (owned_init (owned_add (owned_add kept.owned))) (Or.inl rfl)
    | true =>
      have notNil : pair ≠ .nil := fun same => by rw [same] at truth; cases truth
      have sameHandle : (w.add (.wrapper .keyPair)).Handle .keyPair pair ↔ w.Handle .keyPair pair :=
        handle_add_iff fun same => by cases same
      refine (owned_init_iff (owned_add kept.owned)).trans ⟨fun stored => ?_, ?_⟩
      · exact Or.inr (sameHandle.mp ((stored rfl).resolve_left notNil))
      · rintro (falsy | handle)
        · cases falsy
        · exact fun _ => Or.inr (sameHandle.mpr handle)
  | native kind => exact iff_of_true ((owns_iff_owned rfl rfl).mpr (owned_add kept.owned)) trivial
  | gd n m =>
    by_cases here : w.objects[n]? = some (.wrapper .gd)
    · exact (owns_gd_iff kept m (if_pos here)).trans ⟨fun p _ => p, fun p => p here⟩
    · exact iff_of_true (owns_of_missing kept rfl here (if_neg here)) fun found => absurd found here
  | baes n m =>
    by_cases here : w.objects[n]? = some (.wrapper .baes)
    · exact (owns_baes_iff kept m (if_pos here)).trans ⟨fun p _ => p, fun p => p here⟩
    · exact iff_of_true (owns_of_missing kept rfl here (if_neg here)) fun found => absurd found here
  | keyPair n m =>
    by_cases here : w.objects[n]? = some (.wrapper .keyPair)
    · exact (owns_keyPair_iff kept m (if_pos here)).trans ⟨fun p _ => p, fun p => p here⟩
    · exact iff_of_true (owns_of_missing kept rfl here (if_neg here)) fun found => absurd found here

theorem kept_step (kept : Kept w) {call : Call ν} (owns : Owns w call) : Kept (step w call) where
  owned := owns.fields
  unfreed := by
    rw [step_eq]
    exact unfreed_after kept.unfreed call

/-- **A run owns its handles in every call exactly if every call is proper.** -/
theorem everyStep_owns_iff (calls : List (Call ν)) :
    EveryStep step Owns Heap.start calls ↔ EveryStep step Proper Heap.start calls :=
  everyStep_congr Kept (fun _ _ kept owns => kept_step kept owns)
    (fun call _ _ kept => owns_iff_proper kept call) kept_start

end Along

/-- A gd object with an image, on which a method is called. -/
def withImage (m : GdMethod Int) : List (Call Int) :=
  [.newGd, .gd 0 (.initImage .native), .native .image, .gd 0 m]

/-- **Neither `clear` nor the methods that call it free an image**: it is still in its field after
`clear`, `setGD` stores over it, and `reopenFromFile` leaves a boolean. -/
theorem image_neverFreed :
    ¬ EveryStep step Owns Heap.start (withImage .clear) ∧
      ¬ EveryStep step Owns Heap.start (withImage (.setGD (.object 2))) ∧
      ¬ EveryStep step Owns Heap.start (withImage (.reopenFromFile .native)) ∧
      ((run step Heap.start (withImage (.reopenFromFile .native))).fields (0, .gd)).value =
        .boolean true := by
  have holds : Holds (run step (Heap.start : World Int)
      [.newGd, .gd 0 (.initImage .native), .native .image]) (0, .gd) 1 :=
    ⟨rfl, rfl, rfl, by decide⟩
  refine ⟨?_, ?_, ?_, rfl⟩
  · rintro ⟨_, _, _, owns, _⟩
    have once := (owns.clear (0, .gd) List.mem_cons_self 1 holds).1
    revert once
    decide
  · rintro ⟨_, _, _, owns, _⟩
    have freed := owns.replace (0, .gd) List.mem_cons_self 1 holds [] (.object 2) [] rfl
    cases freed
  · rintro ⟨_, _, _, owns, _⟩
    rcases owns.fields (0, .gd) rfl with isNil | handle
    · cases isNil
    · cases handle

end Bacteria.Scripts
