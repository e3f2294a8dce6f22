/-
**The table of named colours.**

libbacteria/images/images.c and images.h. The array has `MAXCOLORS` slots; what stands behind it is
read and written as if it went on, and `touched` says which slots a call reads or writes.

* `strncpy`, `strcmp` — the copy that may leave its terminator out, and the comparison that runs on.
* `gdSetColor`, `gdAddColor`, `gdFoundColor` — the three functions; `step`, `touched` — as calls.
* `strcmp_reads_iff`, `strcmp_equal_iff` — how far a comparison reads, and when it succeeds.
* `Inside` — what the table is to do in a call; `Room` — when it does; `inside_iff` — one call,
  `table_inside_iff` — every run.
-/

import Bacteria.Lib.CString
import Bacteria.Lib.Runs
import Mathlib.Algebra.Order.Ring.Int
import Mathlib.Logic.Function.Basic

namespace Bacteria.Images

open Clib Runs

/-- `MAXNAMECOLOR`. -/
def maxNameColor : Nat := 128

/-- `MAXCOLORS`. -/
def maxColors : Nat := 128

/-- `struct gdColor`. -/
structure GdColor where
  name : Bytes
  color : Int32
  size : name.length = maxNameColor

/-- `sizeof(struct gdColor)`. -/
def sizeofGdColor : Nat := maxNameColor + 4

/-- `strncpy(…, name, MAXNAMECOLOR)`: cut, or filled up with zeroes. -/
def strncpy (name : CString) : Bytes :=
  (name.bytes ++ List.replicate maxNameColor 0).take maxNameColor

theorem strncpy_length (name : CString) : (strncpy name).length = maxNameColor := by
  rw [strncpy, List.length_take, List.length_append, List.length_replicate]
  omega

/-- The array, the memory behind it, and the counter, an `unsigned char`. -/
structure Table where
  colors : Nat → GdColor
  cColors : Nat

/-- At program start everything is zero. -/
def Table.start : Table := ⟨fun _ => ⟨List.replicate maxNameColor 0, 0, rfl⟩, 0⟩

/-- The byte `k` from `colors[i].name` on. -/
def Table.byteAt (t : Table) (i k : Nat) : Byte :=
  let slot := t.colors (i + k / sizeofGdColor)
  let offset := k % sizeofGdColor
  if offset < maxNameColor then slot.name.getD offset 0
  else UInt8.ofNat (slot.color.toUInt32.toNat / 256 ^ (offset - maxNameColor))

/-- `strcmp` of memory and a name: whether they are equal, and how many bytes of the memory it reads. -/
def strcmp (byte : Nat → Byte) : Nat → Bytes → Bool × Nat
  | k, [] => (byte k = 0, 1)
  | k, c :: name =>
    if byte k = c then
      let rest := strcmp byte (k + 1) name
      (rest.1, rest.2 + 1)
    else (false, 1)

/-- `colors[i]` has this name. -/
def Table.named (t : Table) (i : Nat) (name : CString) : Bool := (strcmp (t.byteAt i) 0 name.bytes).1

/-- The slots that the comparison of `colors[i].name` reads. -/
def Table.compared (t : Table) (i : Nat) (name : CString) : List Nat :=
  (List.range (strcmp (t.byteAt i) 0 name.bytes).2).map fun k => i + k / sizeofGdColor

/-- `gdSetColor`, `none` when it returns -1; `color` is what `gdInitColor` makes of the image and the
RGBa. -/
def gdSetColor (t : Table) (i : Int) (name : CString) (color : Int32) : Option Table :=
  if i > maxColors ∨ i < 0 then none
  else some { t with
    colors := Function.update t.colors i.toNat ⟨strncpy name, color, strncpy_length name⟩ }

/-- `gdAddColor`. -/
def gdAddColor (t : Table) (name : CString) (color : Int32) : Table :=
  match gdSetColor t t.cColors name color with
  | none => t
  | some t' => { t' with cColors := (t'.cColors + 1) % 256 }

/-- The loop of `gdFoundColor` from below `n` down: what it returns, and the slots it reads. -/
def search (t : Table) (name : CString) : Nat → Int32 × List Nat
  | 0 => (0, [])
  | i + 1 =>
    if t.named i name then ((t.colors i).color, t.compared i name ++ [i])
    else
      let rest := search t name i
      (rest.1, t.compared i name ++ rest.2)

/-- `gdFoundColor`. -/
def gdFoundColor (t : Table) (name : CString) : Int32 := (search t name t.cColors).1

/-- A call of one of the three. -/
inductive Call where
  | add (name : CString) (color : Int32)
  | set (i : Int) (name : CString) (color : Int32)
  | found (name : CString)

/-- The table after a call. -/
def step (t : Table) : Call → Table
  | .add name color => gdAddColor t name color
  | .set i name color => (gdSetColor t i name color).getD t
  | .found _ => t

/-- The slots that a call of `gdSetColor` writes. -/
def written (t : Table) (i : Int) (name : CString) (color : Int32) : List Nat :=
  match gdSetColor t i name color with
  | none => []
  | some _ => [i.toNat]

/-- The slots that a call reads or writes. -/
def touched (t : Table) : Call → List Nat
  | .add name color => written t t.cColors name color
  | .set i name color => written t i name color
  | .found name => (search t name t.cColors).2

/-- **What the table is to do in a call**: touch slots of the array only, and keep its counter. -/
def Inside (t : Table) (call : Call) : Prop :=
  (∀ i ∈ touched t call, i < maxColors) ∧ (step t call).cColors ≤ maxColors

/-- The name goes on like the memory from `colors[i]` to the end of the array. -/
def Overreads (t : Table) (name : CString) (i : Nat) : Prop :=
  ∀ k < sizeofGdColor * (maxColors - i), name.bytes[k]? = some (t.byteAt i k)

/-- **When it does.** -/
def Room (t : Table) : Call → Prop
  | .add _ _ => t.cColors ≠ maxColors
  | .set i _ _ => i ≠ maxColors
  | .found name => ∀ i < t.cColors, ¬ Overreads t name i

section Comparing

variable {byte : Nat → Byte}

/-- **How far a comparison reads**: one byte further than the two agree. -/
theorem strcmp_reads_iff (k n : Nat) (name : Bytes) :
    n < (strcmp byte k name).2 ↔ ∀ j < n, name[j]? = some (byte (k + j)) := by
  induction name generalizing k n with
  | nil =>
    cases n with
    | zero => exact iff_of_true (Nat.zero_lt_one) fun j below => absurd below (Nat.not_lt_zero j)
    | succ n =>
      refine iff_of_false (by rw [strcmp]; exact Nat.not_lt.mpr (Nat.succ_pos n)) fun agree => ?_
      cases agree 0 (Nat.succ_pos n)
  | cons c name ih =>
    cases n with
    | zero =>
      refine iff_of_true ?_ fun j below => absurd below (Nat.not_lt_zero j)
      rw [strcmp]
      by_cases same : byte k = c
      · rw [if_pos same]
        exact Nat.succ_pos _
      · rw [if_neg same]
        exact Nat.zero_lt_one
    | succ n =>
      rw [strcmp]
      by_cases same : byte k = c
      · rw [if_pos same, Nat.succ_lt_succ_iff, ih]
        constructor
        · intro agree j below
          cases j with
          | zero => rw [List.getElem?_cons_zero, Nat.add_zero, same]
          | succ j =>
            rw [List.getElem?_cons_succ, agree j (Nat.lt_of_succ_lt_succ below), Nat.add_right_comm,
              Nat.add_assoc]
        · intro agree j below
          have next := agree (j + 1) (Nat.succ_lt_succ below)
          rwa [List.getElem?_cons_succ, ← Nat.add_assoc, Nat.add_right_comm] at next
      · rw [if_neg same]
        refine iff_of_false (Nat.not_lt.mpr (Nat.succ_pos n)) fun agree => ?_
        exact same (Option.some.inj (agree 0 (Nat.succ_pos n))).symm

/-- **When a comparison succeeds**: the name stands there, with a NUL behind it. -/
theorem strcmp_equal_iff (k : Nat) (name : Bytes) : (strcmp byte k name).1 = true ↔
    (∀ j < name.length, name[j]? = some (byte (k + j))) ∧ byte (k + name.length) = 0 := by
  induction name generalizing k with
  | nil =>
    rw [strcmp, decide_eq_true_eq]
    exact ⟨fun closed => ⟨fun j below => absurd below (Nat.not_lt_zero j), closed⟩,
      fun both => both.2⟩
  | cons c name ih =>
    rw [strcmp]
    by_cases same : byte k = c
    · rw [if_pos same, ih, List.length_cons]
      have shift : ∀ j, k + 1 + j = k + (j + 1) := fun j => by omega
      simp only [shift]
      refine and_congr_left fun _ => ⟨fun agree j below => ?_, fun agree j below => ?_⟩
      · cases j with
        | zero => rw [List.getElem?_cons_zero, Nat.add_zero, same]
        | succ j =>
          rw [List.getElem?_cons_succ]
          exact agree j (Nat.lt_of_succ_lt_succ below)
      · have next := agree (j + 1) (Nat.succ_lt_succ below)
        rwa [List.getElem?_cons_succ] at next
    · rw [if_neg same]
      refine iff_of_false Bool.false_ne_true fun both => ?_
      exact same (Option.some.inj (both.1 0 (Nat.succ_pos _))).symm

end Comparing

section Searching

variable {t : Table} {name : CString}

/-- A comparison stays in the array exactly if the name does not go on to its end. -/
theorem compared_inside_iff {i : Nat} (below : i < maxColors) :
    (∀ slot ∈ t.compared i name, slot < maxColors) ↔ ¬ Overreads t name i := by
  have positive : 0 < sizeofGdColor := by decide
  have reach := @strcmp_reads_iff (t.byteAt i) 0 (sizeofGdColor * (maxColors - i)) name.bytes
  simp only [Nat.zero_add] at reach
  rw [Overreads, ← reach, Nat.not_lt]
  constructor
  · intro inside
    by_contra far
    have outside := inside (i + sizeofGdColor * (maxColors - i) / sizeofGdColor)
      (List.mem_map.mpr ⟨_, List.mem_range.mpr (Nat.not_le.mp far), rfl⟩)
    rw [Nat.mul_div_cancel_left _ positive] at outside
    omega
  · intro near slot member
    obtain ⟨k, read, rfl⟩ := List.mem_map.mp member
    have early := lt_of_lt_of_le (List.mem_range.mp read) near
    have steps := Nat.div_lt_of_lt_mul early
    omega

/-- The memory from a slot on is the memory from an earlier one further on. -/
theorem byteAt_shift (t : Table) (i d k : Nat) :
    t.byteAt (i + d) k = t.byteAt i (sizeofGdColor * d + k) := by
  have positive : 0 < sizeofGdColor := by decide
  rw [Table.byteAt, Table.byteAt, Nat.mul_add_div positive, Nat.mul_add_mod, Nat.add_assoc]

/-- A slot that has the name behind one from which the name goes on: it goes on from there, too. -/
theorem overreads_of_named {i j : Nat} (before : i < j) (below : j < maxColors)
    (overreads : Overreads t name i) (named : t.named j name = true) : Overreads t name j := by
  obtain ⟨agree, closed⟩ := (strcmp_equal_iff 0 name.bytes).mp named
  simp only [Nat.zero_add] at agree closed
  have set : ∀ k < sizeofGdColor * (maxColors - j), t.byteAt j k ≠ 0 := by
    intro k inside zero
    have split : sizeofGdColor * (maxColors - i) =
        sizeofGdColor * (j - i) + sizeofGdColor * (maxColors - j) := by
      rw [← Nat.mul_add]
      congr 1
      omega
    have further : sizeofGdColor * (j - i) + k < sizeofGdColor * (maxColors - i) := by omega
    have shifted := byteAt_shift t i (j - i) k
    rw [Nat.add_sub_cancel' (Nat.le_of_lt before), zero] at shifted
    have nul := overreads _ further
    rw [← shifted] at nul
    exact name.noNul (List.mem_of_getElem? nul)
  intro k inside
  by_cases within : k < name.bytes.length
  · exact agree k within
  · exact absurd closed (set _ (by omega))

/-- **A search stays in the array** exactly if no comparison below its start leaves it. -/
theorem search_inside_iff {n : Nat} (below : n ≤ maxColors) :
    (∀ slot ∈ (search t name n).2, slot < maxColors) ↔ ∀ i < n, ¬ Overreads t name i := by
  induction n with
  | zero =>
    exact iff_of_true (fun _ member => absurd member List.not_mem_nil)
      fun i earlier => absurd earlier (Nat.not_lt_zero i)
  | succ n ih =>
    have inside := @compared_inside_iff t name n below
    rw [search]
    by_cases named : t.named n name = true
    · rw [if_pos named]
      simp only [List.mem_append, List.mem_singleton, or_imp, forall_and, forall_eq]
      constructor
      · rintro ⟨compared, _⟩ i earlier overreads
        rcases Nat.lt_succ_iff_lt_or_eq.mp earlier with before | rfl
        · exact inside.mp compared (overreads_of_named before below overreads named)
        · exact inside.mp compared overreads
      · exact fun none => ⟨inside.mpr (none n (Nat.lt_succ_self n)), below⟩
    · rw [if_neg named]
      simp only [List.mem_append, or_imp, forall_and]
      rw [inside, ih (Nat.le_of_succ_le below)]
      constructor
      · rintro ⟨last, others⟩ i earlier
        rcases Nat.lt_succ_iff_lt_or_eq.mp earlier with before | rfl
        · exact others i before
        · exact last
      · exact fun none => ⟨none n (Nat.lt_succ_self n), fun i earlier =>
          none i (Nat.lt_succ_of_lt earlier)⟩

end Searching

section Calls

variable {t : Table}

/-- Which indexes `gdSetColor` accepts: one more than there are slots. -/
theorem gdSetColor_of_accepted {i : Int} (accepted : 0 ≤ i ∧ i ≤ maxColors) (name : CString)
    (color : Int32) : gdSetColor t i name color = some { t with
      colors := Function.update t.colors i.toNat ⟨strncpy name, color, strncpy_length name⟩ } :=
  if_neg (by omega)

theorem gdSetColor_of_refused {i : Int} (refused : ¬ (0 ≤ i ∧ i ≤ maxColors)) (name : CString)
    (color : Int32) : gdSetColor t i name color = none :=
  if_pos (by omega)

/-- The counter after a colour was added to a table with room. -/
theorem gdAddColor_cColors (below : t.cColors < maxColors) (name : CString) (color : Int32) :
    (gdAddColor t name color).cColors = t.cColors + 1 := by
  have small : t.cColors < 128 := below
  have accepted : (0 : Int) ≤ t.cColors ∧ (t.cColors : Int) ≤ maxColors := by omega
  simp only [gdAddColor, gdSetColor_of_accepted accepted]
  omega

/-- **One call stays inside exactly if it has room.** -/
theorem inside_iff (full : t.cColors ≤ maxColors) (call : Call) : Inside t call ↔ Room t call := by
  cases call with
  | add name color =>
    have accepted : (0 : Int) ≤ t.cColors ∧ (t.cColors : Int) ≤ maxColors := by omega
    have slot : touched t (.add name color) = [t.cColors] := by
      simp only [touched, written, gdSetColor_of_accepted accepted, Int.toNat_natCast]
    rw [Inside, slot, Room, step]
    simp only [List.mem_singleton, forall_eq]
    constructor
    · exact fun inside => Nat.ne_of_lt inside.1
    · intro room
      have below := lt_of_le_of_ne full room
      exact ⟨below, by rw [gdAddColor_cColors below]; exact below⟩
  | set i name color =>
    by_cases accepted : 0 ≤ i ∧ i ≤ maxColors
    · have slot : touched t (.set i name color) = [i.toNat] := by
        simp only [touched, written, gdSetColor_of_accepted accepted]
      have kept : (step t (.set i name color)).cColors = t.cColors := by
        simp only [step, gdSetColor_of_accepted accepted, Option.getD_some]
      rw [Inside, slot, Room, kept]
      simp only [List.mem_singleton, forall_eq]
      constructor
      · rintro ⟨below, _⟩ rfl
        exact Nat.lt_irrefl _ below
      · exact fun room => ⟨by omega, full⟩
    · have slot : touched t (.set i name color) = [] := by
        simp only [touched, written, gdSetColor_of_refused accepted]
      have kept : step t (.set i name color) = t := by
        simp only [step, gdSetColor_of_refused accepted, Option.getD_none]
      rw [Inside, slot, Room, kept]
      refine iff_of_true ⟨fun _ member => absurd member List.not_mem_nil, full⟩ ?_
      rintro rfl
      exact accepted ⟨Int.natCast_nonneg _, le_refl _⟩
  | found name =>
    rw [Inside, Room, ← search_inside_iff full]
    exact and_iff_left full

/-- **Every run stays inside exactly as far as its calls have room.** -/
theorem table_inside_iff (calls : List Call) :
    EveryStep step Inside .start calls ↔ EveryStep step Room .start calls :=
  everyStep_congr (fun t => t.cColors ≤ maxColors) (fun _ _ _ inside => inside.2)
    (fun call _ _ full => inside_iff full call) (Nat.zero_le _)

/-- **The slot behind the last one** is written by index, and by the call that finds the table full. -/
theorem slotBehind_written :
    touched .start (.set 128 (cstr [119]) 1) = [128] ∧
      (run step .start (List.replicate 129 (.add (cstr [119]) 1))).cColors = 129 ∧
      ¬ EveryStep step Inside .start [.set 128 (cstr [119]) 1] := by
  refine ⟨by decide, by decide +kernel, fun every => ?_⟩
  exact (inside_iff (Nat.zero_le _) (.set 128 (cstr [119]) 1)).mp every.1 rfl

end Calls

end Bacteria.Images
