/-
**`std::map`: entries in the order of their keys.**

* `OrderedMap` — the entries as an iterator visits them; that the keys rise is a field.
* `filter`, `eraseFirst`, `eraseTurn` — what stays of a map; the scan that erases the entry at its
  iterator, and one turn of the loop around it.
* `returns_eraseTurn_iff` — that loop ends with the entries to keep.
* `insert`, `mem_insert` — a value is put under a key, in the place of the one that was there.
-/

import Bacteria.Lib.EraseScan

/-- A map from keys to values whose keys are ordered by `lt`. -/
structure OrderedMap {κ : Type} (lt : κ → κ → Prop) (ν : Type) where
  entries : List (κ × ν)
  sorted : entries.Pairwise fun first second => lt first.1 second.1

namespace OrderedMap

section OrderedMap

variable {κ ν : Type} {lt : κ → κ → Prop}

theorem eq_of_entries {first second : OrderedMap lt ν} (same : first.entries = second.entries) :
    first = second := by
  cases first
  cases second
  cases same
  rfl

/-- The entries with a property. -/
def filter (m : OrderedMap lt ν) (keep : κ × ν → Bool) : OrderedMap lt ν :=
  ⟨m.entries.filter keep, m.sorted.filter keep⟩

variable (drop : κ × ν → Bool)

/-- Erasing an entry leaves the keys in their order. -/
theorem sorted_of_eraseFirst (m : OrderedMap lt ν) {left : List (κ × ν)}
    (erased : EraseScan.eraseFirst drop m.entries = some left) :
    left.Pairwise fun first second => lt first.1 second.1 := by
  obtain ⟨before, item, after, shape, rfl, _⟩ := EraseScan.eraseFirst_spec drop erased
  have part : (before ++ after).Sublist m.entries := by
    rw [shape]
    exact List.Sublist.append_left (List.sublist_cons_self item after) before
  exact m.sorted.sublist part

/-- The scan: the map without the first entry to drop, `none` when it gets to the end. -/
def eraseFirst (m : OrderedMap lt ν) : Option (OrderedMap lt ν) :=
  match erased : EraseScan.eraseFirst drop m.entries with
  | some left => some ⟨left, sorted_of_eraseFirst drop m erased⟩
  | none => none

/-- One turn: again after an entry was erased. -/
def eraseTurn (m : OrderedMap lt ν) : OrderedMap lt ν ⊕ OrderedMap lt ν :=
  match eraseFirst drop m with
  | some left => .inl left
  | none => .inr m

theorem eraseFirst_entries (m : OrderedMap lt ν) :
    (eraseFirst drop m).map entries = EraseScan.eraseFirst drop m.entries := by
  unfold eraseFirst
  split
  · rename_i left erased
    exact erased.symm
  · rename_i none
    exact none.symm

/-- The turns on a map are the turns on its entries. -/
theorem eraseTurn_entries (m : OrderedMap lt ν) :
    EraseScan.eraseTurn drop m.entries = (eraseTurn drop m).map entries entries := by
  rw [EraseScan.eraseTurn, eraseTurn, ← eraseFirst_entries]
  cases eraseFirst drop m with
  | some left => rfl
  | none => rfl

variable {drop}

/-- **The loop ends, and only with the entries to keep.** -/
theorem returns_eraseTurn_iff {m result : OrderedMap lt ν} :
    Loops.Returns (eraseTurn drop) m result ↔ result = m.filter fun entry => !drop entry := by
  rw [Loops.returns_iff_of_image (eraseTurn_entries drop) fun _ _ => eq_of_entries,
    EraseScan.returns_eraseTurn_iff]
  exact ⟨fun same => eq_of_entries same, fun same => by rw [same]; rfl⟩

/-- **Once more** changes nothing. -/
theorem returns_eraseTurn_filter_iff {m result : OrderedMap lt ν} :
    Loops.Returns (eraseTurn drop) (m.filter fun entry => !drop entry) result ↔
      result = m.filter fun entry => !drop entry := by
  have twice : (m.filter fun entry => !drop entry).filter (fun entry => !drop entry) =
      m.filter fun entry => !drop entry := by
    refine eq_of_entries ?_
    simp only [filter, List.filter_filter, Bool.and_self]
  rw [returns_eraseTurn_iff, twice]

/-! ### Insertion -/

variable [DecidableRel lt]

/-- The entries before and behind a key, with the new value between them. -/
theorem sorted_insert [IsTrans κ lt] (m : OrderedMap lt ν) (key : κ) (value : ν) :
    ((m.entries.filter fun entry => lt entry.1 key) ++
      (key, value) :: m.entries.filter fun entry => lt key entry.1).Pairwise
        fun first second => lt first.1 second.1 := by
  have before : ∀ entry ∈ m.entries.filter (fun entry => lt entry.1 key), lt entry.1 key :=
    fun entry member => of_decide_eq_true (List.mem_filter.mp member).2
  have behind : ∀ entry ∈ m.entries.filter (fun entry => lt key entry.1), lt key entry.1 :=
    fun entry member => of_decide_eq_true (List.mem_filter.mp member).2
  refine List.pairwise_append.mpr
    ⟨m.sorted.filter _, List.pairwise_cons.mpr ⟨behind, m.sorted.filter _⟩, ?_⟩
  intro first isFirst second isSecond
  rcases List.mem_cons.mp isSecond with rfl | later
  · exact before first isFirst
  · exact IsTrans.trans _ _ _ (before first isFirst) (behind second later)

/-- `m[key] = value`. -/
def insert [IsTrans κ lt] (m : OrderedMap lt ν) (key : κ) (value : ν) : OrderedMap lt ν :=
  ⟨_, sorted_insert m key value⟩

/-- **What is in the map afterwards**: the new entry, or one that was there. -/
theorem mem_insert [IsTrans κ lt] {m : OrderedMap lt ν} {key : κ} {value : ν} {entry : κ × ν}
    (member : entry ∈ (m.insert key value).entries) : entry = (key, value) ∨ entry ∈ m.entries := by
  rcases List.mem_append.mp member with first | rest
  · exact Or.inr (List.mem_filter.mp first).1
  · rcases List.mem_cons.mp rest with same | last
    · exact Or.inl same
    · exact Or.inr (List.mem_filter.mp last).1

end OrderedMap

end OrderedMap
