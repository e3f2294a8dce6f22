/-
**Cycles of tables, and the encoder.**

* `encode_ne_unfinished` — a level for each table is enough: no table is entered twice on the way down.
* `encodable_of_returned`, `ne_raised_of_encodable` — what has a text, and what raises no error.
* `encode_returned_iff` — a value has a text exactly if it is `Encodable`.
* `HasCycle` — a value leads to one that leads to itself; `circular_iff` — the error for circular references
  is raised for a cycle only, and for every cycle where nothing else is wrong.
-/

import Bacteria.Json.Encode
import Mathlib.Data.List.Perm.Subperm
import Mathlib.Logic.Relation

namespace Bacteria.Json

open Clib Loops Lua Relation

/-- What has no infinite descent has no cycle. -/
theorem not_transGen_of_acc {α : Type} {r : α → α → Prop} {a : α} (acc : Acc (fun b a => r a b) a) :
    ¬ TransGen r a a := by
  induction acc with
  | intro a _ ih =>
    intro cycle
    obtain ⟨b, step, path⟩ := TransGen.head'_iff.mp cycle
    exact ih b step (TransGen.tail' path step)

/-- What can be reached has none either. -/
theorem acc_of_reflTransGen {α : Type} {r : α → α → Prop} {a b : α} (acc : Acc (fun b a => r a b) a)
    (path : ReflTransGen r a b) : Acc (fun b a => r a b) b := by
  induction path with
  | refl => exact acc
  | tail _ step ih => exact ih.inv step

section Encoding

variable {ν : Type} [DecidableEq ν] {num : Numerals ν} {finite : ν → Bool}
  {objectType : Nat → Bytes} {heap : Heap ν} {fuel : Nat} {stack : List Nat} {v : Value ν}

/-- **The fuel is enough**: the tables on the way down are different ones. -/
theorem encode_ne_unfinished (different : stack.Nodup) (inside : stack ⊆ heap.identities)
    (enough : heap.identities.length < fuel + stack.length) :
    encode num finite objectType heap fuel stack v ≠ .unfinished := by
  induction fuel generalizing stack v with
  | zero =>
    have few := (List.subperm_of_subset different inside).length_le
    omega
  | succ fuel ih =>
    intro open_
    cases v with
    | object identity =>
      obtain ⟨entries, known, new, w, here⟩ := encode_object_unfinished open_
      refine ih (List.nodup_cons.mpr ⟨new, different⟩) (List.cons_subset.mpr ⟨?_, inside⟩) ?_ here
      · exact heap.known identity (Option.isSome_of_eq_some known)
      · rw [List.length_cons]
        omega
    | number n =>
      rw [encode, encodeNumber] at open_
      split at open_ <;> cases open_
    | _ => cases open_

/-- **What has a text is `Encodable`.** -/
theorem encodable_of_returned {text : Bytes}
    (returned : encode num finite objectType heap fuel stack v = .returned text) :
    Encodable num finite heap v := by
  induction fuel generalizing stack v text with
  | zero => cases returned
  | succ fuel ih =>
    cases v with
    | nil => exact .nil
    | boolean b => exact .boolean b
    | string text => exact .string text
    | number n =>
      rw [encode, encodeNumber] at returned
      split at returned
      · next isFinite => exact .number n isFinite
      · cases returned
    | object identity =>
      obtain ⟨entries, known, _, keys, shape⟩ := encode_object_returned returned
      refine .table identity entries known keys fun w member => ?_
      rcases shape with ⟨taken, res, all, _⟩ | ⟨taken, res, all, _⟩
      · rw [children, if_pos taken] at member
        obtain ⟨k, inside, rfl⟩ := List.getElem_of_mem member
        exact ih (all.get inside (all.length_eq ▸ inside))
      · rw [children, if_neg (ne_true_of_eq_false taken)] at member
        obtain ⟨entry, isEntry, rfl⟩ := List.mem_map.mp member
        obtain ⟨k, inside, rfl⟩ := List.getElem_of_mem isEntry
        obtain ⟨_, _, _, value, _⟩ := all.get inside (all.length_eq ▸ inside)
        exact ih value

theorem acc_of_encodable (encodable : Encodable num finite heap v) :
    Acc (fun w v => Child num heap v w) v := by
  induction encodable with
  | table identity entries known keys values ih =>
    refine Acc.intro _ fun w child => ?_
    obtain ⟨other, entries', same, known', member⟩ := child
    obtain rfl := Value.object.inj same
    obtain rfl := Option.some.inj (known.symm.trans known')
    exact ih w member
  | _ =>
    refine Acc.intro _ fun w child => ?_
    obtain ⟨_, _, same, _⟩ := child
    cases same

/-- **It raises no error**, unless the tables that are being encoded can be reached from it. -/
theorem ne_raised_of_encodable (encodable : Encodable num finite heap v)
    (apart : ∀ identity ∈ stack, ¬ ReflTransGen (Child num heap) v (.object identity))
    (error : EncodeError ν) :
    encode num finite objectType heap fuel stack v ≠ .raised error := by
  induction encodable generalizing stack fuel with
  | table identity entries known keys values ih =>
    cases fuel with
    | zero => exact fun same => by cases same
    | succ fuel =>
      intro raised
      rcases encode_object_raised raised with ⟨none, _⟩ | ⟨entries', known', reason⟩
      · rw [known] at none
        cases none
      obtain rfl := Option.some.inj (known.symm.trans known')
      rcases reason with ⟨old, _⟩ | ⟨wrong, _⟩ | ⟨_, w, member, here⟩
      · exact apart identity old .refl
      · exact wrong keys
      · have child : Child num heap (.object identity) w := ⟨identity, entries, rfl, known, member⟩
        refine ih w member (fun other inStack path => ?_) here
        rcases List.mem_cons.mp inStack with rfl | older
        · exact not_transGen_of_acc (acc_of_encodable (.table other entries known keys values))
            (TransGen.head' child path)
        · exact apart other older (.head child path)
  | number n isFinite =>
    cases fuel with
    | zero => exact fun same => by cases same
    | succ fuel =>
      rw [encode, encodeNumber, if_pos isFinite]
      exact fun same => by cases same
  | _ => cases fuel <;> exact fun same => by cases same

theorem encode_ends (enough : heap.identities.length < fuel) :
    encode num finite objectType heap fuel [] v ≠ .unfinished :=
  encode_ne_unfinished List.nodup_nil (List.nil_subset _) (by rwa [List.length_nil, Nat.add_zero])

/-- **What is `Encodable` has a text.** -/
theorem exists_text (enough : heap.identities.length < fuel) (encodable : Encodable num finite heap v) :
    ∃ text, encode num finite objectType heap fuel [] v = .returned text := by
  cases result : encode num finite objectType heap fuel [] v with
  | returned text => exact ⟨text, rfl⟩
  | raised error =>
    exact absurd result (ne_raised_of_encodable encodable (fun _ member => by cases member) error)
  | unfinished => exact absurd result (encode_ends enough)

/-- **The encoder ends, and a value has a text exactly if it is `Encodable`.** -/
theorem encode_returned_iff (enough : heap.identities.length < fuel) :
    encode num finite objectType heap fuel [] v ≠ .unfinished ∧
      ((∃ text, encode num finite objectType heap fuel [] v = .returned text) ↔
        Encodable num finite heap v) :=
  ⟨encode_ends enough, fun ⟨_, returned⟩ => encodable_of_returned returned, exists_text enough⟩

end Encoding

/-- `{a = t, b = t}` with an empty table `t`. -/
def sharedHeap : Heap Int where
  tables
    | 0 => some [(.string (ascii "a"), .object 1), (.string (ascii "b"), .object 1)]
    | 1 => some []
    | _ => none
  identities := [0, 1]
  known
    | 0, _ => by decide
    | 1, _ => by decide
    | _ + 2, there => by cases there
  distinct
    | 0, _, rfl => by decide
    | 1, _, rfl => by decide
  short
    | 0, _, rfl => by decide
    | 1, _, rfl => by decide
  noNil
    | 0, _, rfl => by decide
    | 1, _, rfl => by decide
  len _ := 0

/-- **A table that is there twice** is written twice. -/
theorem encode_shared :
    encode Numerals.integers (fun _ => true) (fun _ => []) sharedHeap 3 [] (.object 0) =
        .returned (ascii "\x7b\"a\":[],\"b\":[]\x7d") ∧
      Encodable Numerals.integers (fun _ => true) sharedHeap (.object 0) :=
  ⟨rfl, (@encode_returned_iff Int _ Numerals.integers (fun _ => true) (fun _ => []) sharedHeap 3 (.object 0)
    (by decide)).2.mp ⟨_, rfl⟩⟩

section Encoding

variable {ν : Type} [DecidableEq ν] {num : Numerals ν} {finite : ν → Bool}
  {objectType : Nat → Bytes} {heap : Heap ν} {fuel : Nat} {stack : List Nat} {v : Value ν}

/-! ### Circular references -/

/-- **A value leads to one that leads to itself.** -/
def HasCycle (num : Numerals ν) (heap : Heap ν) (v : Value ν) : Prop :=
  ∃ w, ReflTransGen (Child num heap) v w ∧ TransGen (Child num heap) w w

/-- The error means a cycle, if the tables that are being encoded lead here. -/
theorem hasCycle_of_circular
    (led : ∀ identity ∈ stack, TransGen (Child num heap) (.object identity) v)
    (raised : encode num finite objectType heap fuel stack v = .raised .circular) :
    HasCycle num heap v := by
  induction fuel generalizing stack v with
  | zero => cases raised
  | succ fuel ih =>
    cases v with
    | object identity =>
      rcases encode_object_raised raised with ⟨_, other⟩ | ⟨entries, known, reason⟩
      · cases other
      rcases reason with ⟨old, _⟩ | ⟨_, other⟩ | ⟨_, w, member, here⟩
      · exact ⟨_, .refl, led identity old⟩
      · rcases other with other | other <;> cases other
      · have child : Child num heap (.object identity) w := ⟨identity, entries, rfl, known, member⟩
        have below : ∀ other ∈ identity :: stack, TransGen (Child num heap) (.object other) w := by
          intro other inStack
          rcases List.mem_cons.mp inStack with rfl | older
          · exact .single child
          · exact .tail (led other older) child
        obtain ⟨last, path, cycle⟩ := ih below here
        exact ⟨last, .head child path, cycle⟩
    | number n =>
      rw [encode, encodeNumber] at raised
      split at raised <;> cases raised
    | _ => cases raised

/-- Where nothing else is wrong there is no other error. -/
theorem circular_of_locallyRight
    (right : ∀ w, ReflTransGen (Child num heap) v w → LocallyRight num finite heap w)
    {error : EncodeError ν} (raised : encode num finite objectType heap fuel stack v = .raised error) :
    error = .circular := by
  induction fuel generalizing stack v with
  | zero => cases raised
  | succ fuel ih =>
    have here := right v .refl
    cases v with
    | object identity =>
      obtain ⟨entries, known, keys⟩ := here
      rcases encode_object_raised raised with ⟨none, _⟩ | ⟨entries', known', reason⟩
      · rw [known] at none
        cases none
      obtain rfl := Option.some.inj (known.symm.trans known')
      rcases reason with ⟨_, circular⟩ | ⟨wrong, _⟩ | ⟨_, w, member, below⟩
      · exact circular
      · exact absurd keys wrong
      · exact ih (fun last path => right last (.head ⟨identity, entries, rfl, known, member⟩ path)) below
    | number n =>
      have isFinite : finite n = true := here
      rw [encode, encodeNumber, if_pos isFinite] at raised
      cases raised
    | _ => cases raised

/-- **Circular references**: the error for them is raised for a cycle only; a value with a cycle has no
text; and where nothing else is wrong, a cycle raises this error. -/
theorem circular_iff (enough : heap.identities.length < fuel) :
    (encode num finite objectType heap fuel [] v = .raised .circular → HasCycle num heap v) ∧
      (HasCycle num heap v → ∃ error, encode num finite objectType heap fuel [] v = .raised error) ∧
      ((∀ w, ReflTransGen (Child num heap) v w → LocallyRight num finite heap w) →
        (encode num finite objectType heap fuel [] v = .raised .circular ↔ HasCycle num heap v)) := by
  have only : encode num finite objectType heap fuel [] v = .raised .circular → HasCycle num heap v :=
    hasCycle_of_circular fun _ member => by cases member
  have all : HasCycle num heap v →
      ∃ error, encode num finite objectType heap fuel [] v = .raised error := by
    rintro ⟨w, path, cycle⟩
    cases result : encode num finite objectType heap fuel [] v with
    | raised error => exact ⟨error, rfl⟩
    | unfinished => exact absurd result (encode_ends enough)
    | returned text =>
      have acc := acc_of_encodable (encodable_of_returned result)
      exact absurd cycle (not_transGen_of_acc (acc_of_reflTransGen acc path))
  refine ⟨only, all, fun right => ⟨only, fun cycle => ?_⟩⟩
  obtain ⟨error, raised⟩ := all cycle
  rw [raised, circular_of_locallyRight right raised]

end Encoding

/-- `t.next = t`. -/
def selfHeap : Heap Int where
  tables
    | 0 => some [(.string (ascii "next"), .object 0)]
    | _ => none
  identities := [0]
  known
    | 0, _ => by decide
    | _ + 1, there => by cases there
  distinct
    | 0, _, rfl => by decide
  short
    | 0, _, rfl => by decide
  noNil
    | 0, _, rfl => by decide
  len _ := 0

theorem hasCycle_self :
    encode Numerals.integers (fun _ => true) (fun _ => []) selfHeap 2 [] (.object 0) = .raised .circular ∧
      HasCycle Numerals.integers selfHeap (.object 0) :=
  ⟨rfl, (@circular_iff Int _ Numerals.integers (fun _ => true) (fun _ => []) selfHeap 2 (.object 0)
    (by decide)).1 rfl⟩

end Bacteria.Json
