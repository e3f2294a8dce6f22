/-
**Finding a colour under its name.**

libbacteria/images/images.c; the functions are in `Colors`.

* `Store`, `record` — a call together with the store it makes; `expected` — what a search is to find.
* `Tells` — the calls after which it finds that; `Kept` — what they keep: the slots below the counter are
  the live stores, and of one name the newer one has the higher index.
* `kept_store`, `kept_step` — one store, one call; `finds_of_kept`, `finds_of_tells` — every run.
-/

import Bacteria.Images.Colors
import Bacteria.Lib.LiveStores
import Mathlib.Data.List.GetD

namespace Bacteria.Images

open Clib Runs

/-- A colour stored under a name. -/
structure Store where
  index : Nat
  name : CString
  color : Int32

/-- The store that a call of `gdSetColor` makes. -/
def stored (t : Table) (i : Int) (name : CString) (color : Int32) : Option Store :=
  match gdSetColor t i name color with
  | none => none
  | some _ => some ⟨i.toNat, name, color⟩

/-- The store that a call makes. -/
def storeOf (t : Table) : Call → Option Store
  | .add name color => stored t t.cColors name color
  | .set i name color => stored t i name color
  | .found _ => none

/-- The table, and the stores so far, oldest first. -/
structure Recorded where
  table : Table
  stores : List Store

def Recorded.start : Recorded := ⟨.start, []⟩

/-- A call. -/
def record (r : Recorded) (call : Call) : Recorded :=
  ⟨step r.table call, r.stores ++ (storeOf r.table call).toList⟩

/-- **The colour of the most recent store under a name that is still there**, 0 if there is none. -/
def expected (stores : List Store) (name : CString) : Int32 :=
  match Stores.latest Store.index (fun s => s.name = name) stores with
  | some s => s.color
  | none => 0

/-- **What the search is for.** -/
def Finds (r : Recorded) : Prop := ∀ name, gdFoundColor r.table name = expected r.stores name

/-- **The calls after which a colour is found**: with a name that is stored with its terminator, into the
array; a store by index goes below the counter, and no slot between has the name already. -/
def Tells (r : Recorded) : Call → Prop
  | .add name _ => r.table.cColors < maxColors ∧ name.strlen < maxNameColor
  | .set i name _ => 0 ≤ i ∧ i < r.table.cColors ∧ name.strlen < maxNameColor ∧
      ∀ j : Nat, i < j → j < r.table.cColors → r.table.named j name = false
  | .found _ => True

instance (r : Recorded) : (call : Call) → Decidable (Tells r call)
  | .add name _ => inferInstanceAs (Decidable (_ < _ ∧ name.strlen < _))
  | .set i name _ => decidable_of_iff (0 ≤ i ∧ i < r.table.cColors ∧ name.strlen < maxNameColor ∧
      ∀ j < r.table.cColors, i < j → r.table.named j name = false)
      ⟨fun told => ⟨told.1, told.2.1, told.2.2.1, fun j above below => told.2.2.2 j below above⟩,
        fun told => ⟨told.1, told.2.1, told.2.2.1, fun j below above => told.2.2.2 j above below⟩⟩
  | .found _ => inferInstanceAs (Decidable True)

/-- A store stands in its slot, with the terminator of its name. -/
structure Stands (t : Table) (s : Store) : Prop where
  name : (t.colors s.index).name = strncpy s.name
  color : (t.colors s.index).color = s.color
  short : s.name.strlen < maxNameColor

/-- **What such calls keep.** -/
structure Kept (r : Recorded) : Prop where
  full : r.table.cColors ≤ maxColors
  stands : ∀ s ∈ Stores.live Store.index r.stores, s.index < r.table.cColors ∧ Stands r.table s
  every : ∀ i < r.table.cColors, ∃ s ∈ Stores.live Store.index r.stores, s.index = i
  ordered : (Stores.live Store.index r.stores).Pairwise fun older newer =>
    older.name = newer.name → older.index < newer.index

section Searching

variable {t : Table} {s : Store} {name : CString}

/-- The bytes of a name that stands in its slot. -/
theorem byteAt_of_stands (stands : Stands t s) {k : Nat} (within : k < maxNameColor) :
    t.byteAt s.index k = s.name.bytes.getD k 0 := by
  have small : k < 128 := within
  have first : k / sizeofGdColor = 0 := Nat.div_eq_of_lt (Nat.lt_add_right 4 within)
  have offset : k % sizeofGdColor = k := Nat.mod_eq_of_lt (Nat.lt_add_right 4 within)
  simp only [Table.byteAt, first, offset, Nat.add_zero, if_pos within, stands.name, strncpy,
    List.getD_eq_getElem?_getD]
  rw [List.getElem?_take_of_lt within]
  by_cases before : k < s.name.bytes.length
  · rw [List.getElem?_append_left before]
  · rw [List.getElem?_append_right (Nat.not_lt.mp before), List.getElem?_replicate,
      if_pos (lt_of_le_of_lt (Nat.sub_le _ _) within),
      List.getElem?_eq_none (Nat.not_lt.mp before)]
    rfl

/-- **The slot of a store has its name, and no other.** -/
theorem named_iff_of_stands (stands : Stands t s) : t.named s.index name = true ↔ s.name = name := by
  have short : s.name.bytes.length < maxNameColor := stands.short
  rw [Table.named, strcmp_equal_iff]
  simp only [Nat.zero_add]
  constructor
  · rintro ⟨agree, closed⟩
    have length : name.bytes.length = s.name.bytes.length := by
      rcases Nat.lt_trichotomy name.bytes.length s.name.bytes.length with less | same | more
      · rw [byteAt_of_stands stands (less.trans short), List.getD_eq_getElem _ _ less] at closed
        exact absurd (closed ▸ List.getElem_mem less) s.name.noNul
      · exact same
      · have nul := agree _ more
        rw [byteAt_of_stands stands short, List.getD_eq_default _ _ (le_refl _)] at nul
        exact absurd (List.mem_of_getElem? nul) name.noNul
    refine CString.ext (List.ext_getElem? fun j => ?_)
    by_cases before : j < name.bytes.length
    · have own : j < s.name.bytes.length := length ▸ before
      rw [agree j before, byteAt_of_stands stands (own.trans short), List.getD_eq_getElem _ _ own,
        List.getElem?_eq_getElem own]
    · rw [List.getElem?_eq_none (Nat.not_lt.mp before),
        List.getElem?_eq_none (length ▸ Nat.not_lt.mp before)]
  · rintro rfl
    refine ⟨fun j before => ?_, ?_⟩
    · rw [byteAt_of_stands stands (before.trans short), List.getD_eq_getElem _ _ before,
        List.getElem?_eq_getElem before]
    · rw [byteAt_of_stands stands short, List.getD_eq_default _ _ (le_refl _)]

/-- The search returns 0 when no slot has the name. -/
theorem search_of_none {n : Nat} (none : ∀ i < n, t.named i name = false) :
    (search t name n).1 = 0 := by
  induction n with
  | zero => rfl
  | succ n ih =>
    have other : ¬ t.named n name = true := by
      rw [none n (Nat.lt_succ_self n)]
      exact Bool.false_ne_true
    rw [search, if_neg other]
    exact ih fun i below => none i (Nat.lt_succ_of_lt below)

/-- **The search finds the highest slot with the name.** -/
theorem search_of_highest {n i : Nat} (below : i < n) (named : t.named i name = true)
    (highest : ∀ j, i < j → j < n → t.named j name = false) :
    (search t name n).1 = (t.colors i).color := by
  induction n with
  | zero => exact absurd below (Nat.not_lt_zero i)
  | succ n ih =>
    rcases Nat.lt_succ_iff_lt_or_eq.mp below with before | rfl
    · have other : ¬ t.named n name = true := by
        rw [highest n before (Nat.lt_succ_self n)]
        exact Bool.false_ne_true
      rw [search, if_neg other]
      exact ih before fun j above earlier => highest j above (Nat.lt_succ_of_lt earlier)
    · rw [search, if_pos named]

/-- **A table that keeps its stores finds them.** -/
theorem finds_of_kept {r : Recorded} (kept : Kept r) : Finds r := by
  intro name
  rw [gdFoundColor, expected]
  cases found : Stores.latest Store.index (fun s => decide (s.name = name)) r.stores with
  | none =>
    refine search_of_none fun i below => Bool.eq_false_iff.mpr fun named => ?_
    obtain ⟨s, there, rfl⟩ := kept.every i below
    have same := (named_iff_of_stands (kept.stands s there).2).mp named
    exact Stores.latest_eq_none_iff.mp found s there (decide_eq_true same)
  | some s =>
    obtain ⟨there, same, last⟩ := Stores.of_latest kept.ordered found
    obtain ⟨below, stands⟩ := kept.stands s there
    have named := (named_iff_of_stands stands).mpr (of_decide_eq_true same)
    rw [search_of_highest below named, stands.color]
    refine fun j above under => Bool.eq_false_iff.mpr fun otherNamed => ?_
    obtain ⟨other, otherThere, rfl⟩ := kept.every j under
    have otherSame := (named_iff_of_stands (kept.stands other otherThere).2).mp otherNamed
    rcases last other otherThere (decide_eq_true otherSame) with rfl | older
    · exact Nat.lt_irrefl _ above
    · exact Nat.lt_asymm above (older (otherSame.trans (of_decide_eq_true same).symm))

end Searching

section Storing

variable {r : Recorded}

/-- A slot that is not stored to keeps what stands there. -/
theorem Stands.of_other {t t' : Table} {s : Store} (stands : Stands t s)
    (same : t'.colors s.index = t.colors s.index) : Stands t' s :=
  ⟨by rw [same, stands.name], by rw [same, stands.color], stands.short⟩

/-- **One store**, at an index below the new counter; of its name, all that stays lies below it. -/
theorem kept_store (kept : Kept r) {store : Store} {t' : Table}
    (written : t'.colors = Function.update r.table.colors store.index
      ⟨strncpy store.name, store.color, strncpy_length store.name⟩)
    (short : store.name.strlen < maxNameColor) (full : t'.cColors ≤ maxColors)
    (below : store.index < t'.cColors) (grown : r.table.cColors ≤ t'.cColors)
    (covered : ∀ i < t'.cColors, i ≠ store.index → i < r.table.cColors)
    (highest : ∀ s ∈ Stores.live Store.index r.stores, s.index ≠ store.index →
      s.name = store.name → s.index < store.index) :
    Kept ⟨t', r.stores ++ [store]⟩ where
  full := full
  stands s member := by
    rcases Stores.mem_live_append_singleton.mp member with ⟨there, different⟩ | rfl
    · obtain ⟨inside, stands⟩ := kept.stands s there
      refine ⟨lt_of_lt_of_le inside grown, stands.of_other ?_⟩
      rw [written, Function.update_of_ne different]
    · refine ⟨below, ?_, ?_, short⟩
      · rw [written, Function.update_self]
      · rw [written, Function.update_self]
  every i inside := by
    by_cases here : i = store.index
    · exact ⟨store, Stores.mem_live_append_singleton.mpr (Or.inr rfl), here.symm⟩
    · obtain ⟨s, there, rfl⟩ := kept.every i (covered i inside here)
      exact ⟨s, Stores.mem_live_append_singleton.mpr (Or.inl ⟨there, here⟩), rfl⟩
  ordered := Stores.pairwise_live_append kept.ordered highest

theorem kept_add (kept : Kept r) {name : CString} {color : Int32}
    (told : Tells r (.add name color)) : Kept (record r (.add name color)) := by
  obtain ⟨below, short⟩ := told
  have small : r.table.cColors < 128 := below
  have accepted : (0 : Int) ≤ r.table.cColors ∧ (r.table.cColors : Int) ≤ maxColors := by omega
  have store : storeOf r.table (.add name color) = some ⟨r.table.cColors, name, color⟩ := by
    simp only [storeOf, stored, gdSetColor_of_accepted accepted, Int.toNat_natCast]
  have written : (gdAddColor r.table name color).colors =
      Function.update r.table.colors r.table.cColors
        ⟨strncpy name, color, strncpy_length name⟩ := by
    simp only [gdAddColor, gdSetColor_of_accepted accepted, Int.toNat_natCast]
  have counter := gdAddColor_cColors below name color
  rw [record, store, step]
  refine kept_store kept written short ?_ ?_ ?_ ?_ ?_
  · rw [counter]
    exact below
  · rw [counter]
    exact Nat.lt_succ_self _
  · rw [counter]
    exact Nat.le_succ _
  · intro i inside other
    rw [counter] at inside
    exact lt_of_le_of_ne (Nat.le_of_lt_succ inside) other
  · exact fun s there _ _ => (kept.stands s there).1

theorem kept_set (kept : Kept r) {i : Int} {name : CString} {color : Int32}
    (told : Tells r (.set i name color)) : Kept (record r (.set i name color)) := by
  obtain ⟨positive, below, short, free⟩ := told
  have full := kept.full
  have accepted : 0 ≤ i ∧ i ≤ maxColors := by omega
  have store : storeOf r.table (.set i name color) = some ⟨i.toNat, name, color⟩ := by
    simp only [storeOf, stored, gdSetColor_of_accepted accepted]
  have after : step r.table (.set i name color) = { r.table with
      colors := Function.update r.table.colors i.toNat
        ⟨strncpy name, color, strncpy_length name⟩ } := by
    simp only [step, gdSetColor_of_accepted accepted, Option.getD_some]
  have inside : i.toNat < r.table.cColors := by omega
  rw [record, store, after]
  refine kept_store kept rfl short full inside (le_refl _) (fun _ before _ => before) ?_
  intro s there different same
  obtain ⟨within, stands⟩ := kept.stands s there
  by_contra above
  have higher : i < s.index := by
    have strictly : i.toNat < s.index := lt_of_le_of_ne (Nat.not_lt.mp above) different.symm
    omega
  have named := (named_iff_of_stands stands).mpr same
  rw [free s.index higher within] at named
  cases named

/-- **One call.** -/
theorem kept_step (kept : Kept r) {call : Call} (told : Tells r call) : Kept (record r call) := by
  cases call with
  | add name color => exact kept_add kept told
  | set i name color => exact kept_set kept told
  | found name =>
    rw [record, storeOf, Option.toList_none, List.append_nil]
    exact kept

theorem kept_start : Kept .start where
  full := Nat.zero_le _
  stands _ member := absurd member List.not_mem_nil
  every i below := absurd below (Nat.not_lt_zero i)
  ordered := List.Pairwise.nil

/-- **Every run**: a colour is found under its name after each part of a run of such calls. -/
theorem finds_of_tells {calls before : List Call} (told : EveryStep record Tells .start calls)
    (part : before <+: calls) : Finds (run record .start before) :=
  finds_of_kept (everyStep_induction Kept (fun _ _ kept told => kept_step kept told) kept_start told
    part)

/-- Two colours, and the second one stored again. -/
theorem finds_of_tells_two :
    Finds (run record .start [.add (cstr [114]) 1, .add (cstr [103]) 2, .set 1 (cstr [103]) 3]) :=
  @finds_of_tells [.add (cstr [114]) 1, .add (cstr [103]) 2, .set 1 (cstr [103]) 3] _ (by decide)
    (List.prefix_refl _)

/-- **Three colours that are not found**: stored behind the counter, stored again below a slot of the
same name, and stored under a name of 128 bytes. -/
theorem storedColor_lost :
    ¬ Finds (run record .start [.set 5 (cstr [114]) 7]) ∧
      ¬ Finds (run record .start
        [.add (cstr [114]) 1, .add (cstr [114]) 2, .set 0 (cstr [114]) 3]) ∧
      ¬ Finds (run record .start [.add (cstr (List.replicate 128 114)) 1]) := by
  refine ⟨fun finds => ?_, fun finds => ?_, fun finds => ?_⟩
  · have lost := finds (cstr [114])
    revert lost
    decide
  · have lost := finds (cstr [114])
    revert lost
    decide
  · have lost := finds (cstr (List.replicate 128 114))
    revert lost
    decide +kernel

end Storing

end Bacteria.Images
