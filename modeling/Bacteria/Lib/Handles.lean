/-
**Handles of native objects in the fields of a script's objects.**

`κ` are the kinds of native objects, `γ` the classes of objects that scripts make, `π` the fields.

* `Heap` — the objects by their identities, the fields, and a log of what was freed and stored.
* `make`, `free`, `load`, `store`, `assign` — what bindings and methods do to it.
* `Handle`, `Owned` — a live handle; every field that one was put into is nil or a live handle.
* `owned_put`, `stored_of_owned`, `owned_assigned_iff` — what may be put into a field.
-/

import Bacteria.Lib.LuaScript
import Mathlib.Logic.Function.Basic

namespace Handles

open Lua

/-- A table or userdata. A hollow userdata has nothing native behind it. -/
inductive Thing (κ γ : Type) where
  | table
  | wrapper (cls : γ)
  | native (kind : κ)
  | hollow
deriving DecidableEq

/-- A field, and whether a handle was put into it. -/
structure Field (ν : Type) where
  value : Value ν
  initialised : Bool

/-- What happens to handles and fields. -/
inductive Action (π ν : Type) where
  | free (identity : Nat)
  | store (place : π) (value : Value ν)
deriving DecidableEq

/-- The objects, their fields, and all actions so far. -/
structure Heap (κ γ π ν : Type) where
  objects : List (Thing κ γ)
  fields : π → Field ν
  log : List (Action π ν)

/-- How a binding ends that makes a handle. -/
inductive Made where
  | raised
  | nothing
  | hollow
  | native
deriving DecidableEq

namespace Heap

section Heap

variable {κ γ π ν : Type}

/-- Without objects. -/
def start : Heap κ γ π ν := ⟨[], fun _ => ⟨.nil, false⟩, []⟩

/-- With one more object. -/
def add (w : Heap κ γ π ν) (thing : Thing κ γ) : Heap κ γ π ν :=
  { w with objects := w.objects ++ [thing] }

/-- A live native object. -/
def Live (w : Heap κ γ π ν) (kind : κ) (identity : Nat) : Prop :=
  w.objects[identity]? = some (.native kind) ∧ Action.free identity ∉ w.log

/-- A live handle. -/
def Handle (w : Heap κ γ π ν) (kind : κ) : Value ν → Prop
  | .object identity => w.Live kind identity
  | _ => False

/-- Every field that a handle was put into is nil or a live handle of its kind. -/
def Owned (kindOf : π → κ) (w : Heap κ γ π ν) : Prop :=
  ∀ place, (w.fields place).initialised = true →
    (w.fields place).value = .nil ∨ w.Handle (kindOf place) (w.fields place).value

/-- Nothing was freed. -/
def Unfreed (w : Heap κ γ π ν) : Prop := ∀ identity, Action.free identity ∉ w.log

variable [DecidableEq π]

/-- With a field as its object was made. -/
def init (w : Heap κ γ π ν) (place : π) (field : Field ν) : Heap κ γ π ν :=
  { w with fields := Function.update w.fields place field }

/-- With a value put into a field. -/
def put (w : Heap κ γ π ν) (place : π) (value : Value ν) : Heap κ γ π ν :=
  { w with
    fields := Function.update w.fields place ⟨value, true⟩
    log := w.log ++ [.store place value] }

/-- With what a binding makes put into a field. -/
def assigned (w : Heap κ γ π ν) (kind : κ) (place : π) : Made → Heap κ γ π ν
  | .raised => w
  | .nothing => w.put place .nil
  | .hollow => (w.add .hollow).put place (.object w.objects.length)
  | .native => (w.add (.native kind)).put place (.object w.objects.length)

end Heap

end Heap

section Scripts

variable {κ γ π ν : Type}

/-- A new table or userdata. -/
def alloc (thing : Thing κ γ) : Script (Heap κ γ π ν) (Value ν) := do
  let w ← get
  set (w.add thing)
  return .object w.objects.length

/-- A binding that makes a handle. -/
def make (kind : κ) : Made → Script (Heap κ γ π ν) (Value ν)
  | .raised => failure
  | .nothing => return .nil
  | .hollow => alloc .hollow
  | .native => alloc (.native kind)

/-- A binding that frees the object behind a handle; it takes any userdata. -/
def free : Value ν → Script (Heap κ γ π ν) Unit
  | .object identity => do
    let w ← get
    match w.objects[identity]? with
    | some (.native _) => set { w with log := w.log ++ [Action.free identity] }
    | some .hollow => set { w with log := w.log ++ [Action.free identity] }
    | _ => failure
  | _ => failure

def load (place : π) : Script (Heap κ γ π ν) (Value ν) := do
  let w ← get
  return (w.fields place).value

variable [DecidableEq π]

def store (place : π) (value : Value ν) : Script (Heap κ γ π ν) Unit :=
  modify fun w => w.put place value

/-- An assignment of what a binding makes. -/
def assign (kind : κ) (place : π) (result : Made) : Script (Heap κ γ π ν) Unit := do
  let handle ← make kind result
  store place handle

end Scripts

section Growing

variable {κ γ π ν : Type} {w : Heap κ γ π ν} {place : π} {kind : κ} {value : Value ν}
  {thing : Thing κ γ} {kindOf : π → κ}

theorem load_run (w : Heap κ γ π ν) (place : π) :
    (load place).run w = (some (w.fields place).value, w) := rfl

theorem alloc_run (w : Heap κ γ π ν) (thing : Thing κ γ) :
    (alloc thing).run w = (some (.object w.objects.length), w.add thing) := rfl

/-- The last object is the one that was made last. -/
theorem getElem?_add (w : Heap κ γ π ν) (thing : Thing κ γ) :
    (w.add thing).objects[w.objects.length]? = some thing := by
  rw [Heap.add, List.getElem?_append_right (Nat.le_refl _), Nat.sub_self]
  rfl

/-- A handle stays live when an object is made. -/
theorem handle_add (live : w.Handle kind value) : (w.add thing).Handle kind value := by
  cases value with
  | object identity =>
    obtain ⟨here, unfreed⟩ := live
    refine ⟨?_, unfreed⟩
    rw [Heap.add, List.getElem?_append_left (List.getElem?_eq_some_iff.mp here).1]
    exact here
  | _ => cases live

/-- **No value becomes a handle** when another kind of object is made. -/
theorem handle_add_iff (different : thing ≠ .native kind) :
    (w.add thing).Handle kind value ↔ w.Handle kind value := by
  refine ⟨fun live => ?_, handle_add⟩
  cases value with
  | object identity =>
    obtain ⟨here, unfreed⟩ := live
    refine ⟨?_, unfreed⟩
    rw [Heap.add] at here
    rcases Nat.lt_or_ge identity w.objects.length with old | new
    · rwa [List.getElem?_append_left old] at here
    · rw [List.getElem?_append_right new] at here
      have last := List.mem_singleton.mp (List.mem_of_getElem? here)
      exact absurd last.symm different
  | _ => cases live

theorem owned_add (owned : w.Owned kindOf) : (w.add thing).Owned kindOf :=
  fun place set => (owned place set).imp_right handle_add

variable [DecidableEq π]

/-- No value becomes or ceases to be a handle when something is stored. -/
theorem handle_put_iff {other : Value ν} :
    (w.put place other).Handle kind value ↔ w.Handle kind value := by
  cases value with
  | object identity =>
    refine and_congr_right fun _ => not_congr ?_
    rw [Heap.put, List.mem_append, List.mem_singleton]
    exact or_iff_left fun same => by cases same
  | _ => exact Iff.rfl

/-- **A new field is owned** if its value is. -/
theorem owned_init_iff (owned : w.Owned kindOf) {field : Field ν} :
    (w.init place field).Owned kindOf ↔
      (field.initialised = true → field.value = .nil ∨ w.Handle (kindOf place) field.value) := by
  have self : (w.init place field).fields place = field := Function.update_self _ _ _
  constructor
  · intro after set
    have here := after place
    rw [self] at here
    exact here set
  · intro here other
    by_cases same : other = place
    · rw [same, self]
      exact here
    · have kept : (w.init place field).fields other = w.fields other :=
        Function.update_of_ne same _ _
      rw [kept]
      exact owned other

/-- A field without a handle is owned. -/
theorem owned_init (owned : w.Owned kindOf) : (w.init place ⟨value, false⟩).Owned kindOf :=
  (owned_init_iff owned).mpr fun set => Bool.noConfusion set

/-- **What is stored has to be nil or a live handle.** -/
theorem stored_of_owned (owned : (w.put place value).Owned kindOf) :
    value = .nil ∨ w.Handle (kindOf place) value := by
  have self : (w.put place value).fields place = ⟨value, true⟩ := Function.update_self _ _ _
  have here := owned place
  rw [self] at here
  exact (here rfl).imp_right handle_put_iff.mp

theorem owned_put (owned : w.Owned kindOf)
    (stored : value = .nil ∨ w.Handle (kindOf place) value) : (w.put place value).Owned kindOf := by
  have fields : (w.init place ⟨value, true⟩).Owned kindOf :=
    (owned_init_iff owned).mpr fun _ => stored
  exact fun other set => (fields other set).imp_right handle_put_iff.mpr

/-- **An assignment keeps the fields owned**, unless the userdata is hollow. -/
theorem owned_assigned_iff (owned : w.Owned kindOf) (unfreed : w.Unfreed) {result : Made} :
    (w.assigned (kindOf place) place result).Owned kindOf ↔ result ≠ .hollow := by
  cases result with
  | raised => exact iff_of_true owned fun same => by cases same
  | nothing => exact iff_of_true (owned_put owned (Or.inl rfl)) fun same => by cases same
  | hollow =>
    refine iff_of_false (fun after => ?_) fun different => different rfl
    rcases stored_of_owned after with isNil | ⟨here, _⟩
    · cases isNil
    · rw [getElem?_add] at here
      cases here
  | native =>
    have live : (w.add (.native (kindOf place))).Live (kindOf place) w.objects.length :=
      ⟨getElem?_add w _, unfreed _⟩
    exact iff_of_true (owned_put (owned_add owned) (Or.inr live)) fun same => by cases same

/-- Nothing stored is a free. -/
theorem unfreed_put (unfreed : w.Unfreed) : (w.put place value).Unfreed := by
  intro identity
  rw [Heap.put, List.mem_append, List.mem_singleton]
  exact not_or.mpr ⟨unfreed identity, fun same => by cases same⟩

theorem unfreed_assigned (unfreed : w.Unfreed) (result : Made) :
    (w.assigned kind place result).Unfreed := by
  cases result with
  | raised => exact unfreed
  | _ => exact unfreed_put unfreed

end Growing

end Handles
