/-
**`gdDrawRandomPixels`.**

libbacteria/images/images.c.

* `remainder` — `%`, which has no result for zero.
* `gdDrawRandomPixels` — the number of pixels is drawn again until it is at least `min`; `drawPixels` —
  the loop that draws them.
* `drawPixels_spec` — so many pixels, each inside the image.
* `DrawsRight` — what the function is for; `drawsRight_iff` — it fails for `min = max` alone, where every
  number below `max` is too small.
-/

import Bacteria.Lib.Retry

namespace Bacteria.Images

open Loops

/-- `struct image`. -/
structure Image where
  width : Nat
  height : Nat

/-- What `gdImageSetPixel` is called with. -/
structure Pixel where
  x : Nat
  y : Nat
  color : Int32
deriving DecidableEq

/-- `value % modulus`. -/
def remainder (value modulus : Nat) : Option Nat :=
  if modulus = 0 then none else some (value % modulus)

/-- The arguments of `gdImageColorAllocateAlpha` in `RANDCLR(15)`. -/
structure RandClr where
  r : Nat
  g : Nat
  b : Nat
  alpha : Nat

section Drawing

variable (rand : Nat → Nat) (allocate : RandClr → Int32)

/-- `RANDCLR(15)`, with the next four numbers. C leaves the order of the four calls of `rand()` open; this
is the one in which they are written. -/
def randClr (call : Nat) : RandClr :=
  ⟨rand call % 255, rand (call + 1) % 255, rand (call + 2) % 255, rand (call + 3) % 15⟩

/-- `gdSetPixel`: the pixels it sets. -/
def gdSetPixel (im : Image) (x y : Nat) (color : Int32) : List Pixel :=
  if x > im.width then [] else if y > im.height then [] else [⟨x, y, color⟩]

/-- The loop over `i`, from this call of `rand()` on; `none` when it divides by zero. -/
def drawPixels (im : Image) : Nat → Nat → Option (List Pixel)
  | 0, _ => some []
  | i + 1, call =>
    match remainder (rand call) im.width, remainder (rand (call + 1)) im.height with
    | some x, some y =>
      (drawPixels im i (call + 6)).map
        (gdSetPixel im x y (allocate (randClr rand (call + 2))) ++ ·)
    | _, _ => none

/-- The loop over `count` stops: at a number that is not below `min`, or in a division by zero. -/
def enough (min : Nat) : Option Nat → Bool
  | none => true
  | some count => ¬ count < min

/-- How a call ends. -/
inductive Drawn where
  | dividedByZero
  | returned (pixels : List Pixel)
deriving DecidableEq

/-- What follows the loop over `count`. -/
def drawCount (im : Image) (picked : Option Nat × Nat) : Drawn :=
  match picked.1.bind fun count => drawPixels rand allocate im count picked.2 with
  | none => .dividedByZero
  | some pixels => .returned pixels

/-- `gdDrawRandomPixels`, for so many turns of its first loop at most. -/
def gdDrawRandomPixels (fuel : Nat) (im : Image) (min max : Nat) : Option Drawn :=
  if min > max then some (.returned [])
  else
    (loop (retry (enough min) fun call => remainder (rand call) max) fuel (some 0, 0)).map
      (drawCount rand allocate im)

/-- **What the function is for**: it returns without dividing by zero, and between `min` and `max` pixels
are set, inside the image. -/
def DrawsRight (im : Image) (min max : Nat) : Prop :=
  ∃ fuel pixels, gdDrawRandomPixels rand allocate fuel im min max = some (.returned pixels) ∧
    (min ≤ max → min ≤ pixels.length ∧ pixels.length ≤ max ∧
      ∀ p ∈ pixels, p.x < im.width ∧ p.y < im.height)

end Drawing

section Returning

variable {rand : Nat → Nat} {allocate : RandClr → Int32} {im : Image} {min max : Nat}

theorem remainder_of_pos {modulus : Nat} (positive : 0 < modulus) (value : Nat) :
    remainder value modulus = some (value % modulus) :=
  if_neg (Nat.ne_of_gt positive)

/-- **So many pixels, each inside.** -/
theorem drawPixels_spec (wide : 0 < im.width) (high : 0 < im.height) (count call : Nat) :
    ∃ pixels, drawPixels rand allocate im count call = some pixels ∧ pixels.length = count ∧
      ∀ p ∈ pixels, p.x < im.width ∧ p.y < im.height := by
  induction count generalizing call with
  | zero => exact ⟨[], rfl, rfl, fun p member => absurd member List.not_mem_nil⟩
  | succ count ih =>
    obtain ⟨pixels, drawn, length, inside⟩ := ih (call + 6)
    have xInside := Nat.mod_lt (rand call) wide
    have yInside := Nat.mod_lt (rand (call + 1)) high
    have set : ∀ color, gdSetPixel im (rand call % im.width) (rand (call + 1) % im.height) color =
        [⟨rand call % im.width, rand (call + 1) % im.height, color⟩] := fun color => by
      rw [gdSetPixel, if_neg (Nat.not_lt_of_lt xInside), if_neg (Nat.not_lt_of_lt yInside)]
    simp only [drawPixels, remainder_of_pos wide, remainder_of_pos high, drawn, set, Option.map_some]
    refine ⟨_, rfl, by rw [List.singleton_append, List.length_cons, length], fun p member => ?_⟩
    rcases List.mem_cons.mp member with rfl | later
    · exact ⟨xInside, yInside⟩
    · exact inside p later

/-- A call that stops with a number draws that many pixels. -/
theorem drawsRight_of_returns (wide : 0 < im.width) (high : 0 < im.height) (order : min ≤ max)
    {count call : Nat} (enoughPixels : min ≤ count) (atMost : count ≤ max)
    (returns : Returns (retry (enough min) fun call => remainder (rand call) max) (some 0, 0)
      (some count, call)) : DrawsRight rand allocate im min max := by
  obtain ⟨fuel, ends⟩ := returns
  obtain ⟨pixels, drawn, length, inside⟩ :=
    @drawPixels_spec rand allocate im wide high count call
  refine ⟨fuel, pixels, ?_, fun _ => ⟨by rwa [length], by rwa [length], inside⟩⟩
  rw [gdDrawRandomPixels, if_neg (Nat.not_lt.mpr order), ends, Option.map_some, drawCount,
    Option.bind_some, drawn]

/-- A number that is drawn lies below `max`. -/
theorem drawsRight_of_enough (wide : 0 < im.width) (high : 0 < im.height) (positive : 0 < max)
    (order : min ≤ max) (accepted : enough min (some 0) = true ∨
      ∃ call, enough min (remainder (rand call) max) = true) :
    DrawsRight rand allocate im min max := by
  have shifted : enough min (some 0) = true ∨
      ∃ k, enough min (remainder (rand (0 + k)) max) = true := by
    simpa only [Nat.zero_add] using accepted
  obtain ⟨⟨count, call⟩, returns, here, origin⟩ :=
    @retry_returns _ (enough min) (fun call => remainder (rand call) max) _ _ shifted
  have number : ∃ value, count = some value ∧ value ≤ max := by
    rcases origin with zero | ⟨k, drawn⟩
    · exact ⟨0, zero, Nat.zero_le _⟩
    · exact ⟨_, drawn.trans (remainder_of_pos positive _), Nat.le_of_lt (Nat.mod_lt _ positive)⟩
  obtain ⟨value, rfl, atMost⟩ := number
  exact drawsRight_of_returns wide high order (Nat.not_lt.mp (of_decide_eq_true here)) atMost returns

/-- **For `min = max` every number is too small.** -/
theorem not_drawsRight_of_equal (positive : 0 < min) (same : min = max) :
    ¬ DrawsRight rand allocate im min max := by
  rintro ⟨fuel, pixels, run, _⟩
  rw [gdDrawRandomPixels, if_neg (Nat.not_lt.mpr (le_of_eq same)), Option.map_eq_some_iff] at run
  obtain ⟨picked, ends, _⟩ := run
  refine not_returns_of_rejected ?_ (fun call => ?_) picked ⟨fuel, ends⟩
  · exact decide_eq_false (not_not.mpr positive)
  · rw [remainder_of_pos (same ▸ positive)]
    refine decide_eq_false (not_not.mpr ?_)
    rw [same]
    exact Nat.mod_lt _ (same ▸ positive)

/-- **When the drawing ends as it should**: unless `min` and `max` are one positive number. -/
theorem drawsRight_iff (allocate : RandClr → Int32) (wide : 0 < im.width) (high : 0 < im.height)
    (fair : TakesEveryResidue rand max) :
    DrawsRight rand allocate im min max ↔ ¬ (0 < min ∧ min = max) := by
  constructor
  · exact fun right equal => not_drawsRight_of_equal equal.1 equal.2 right
  · intro different
    by_cases order : min ≤ max
    · by_cases zero : min = 0
      · have here : enough min (some 0) = true := by
          rw [zero]
          rfl
        by_cases positive : 0 < max
        · exact drawsRight_of_enough wide high positive order (Or.inl here)
        · have atOnce : Returns (retry (enough min) fun call => remainder (rand call) max)
              (some 0, 0) (some 0, 0) := (returns_iff_of_done (retry_of_accepted here)).mpr rfl
          exact drawsRight_of_returns wide high order (le_of_eq zero) (Nat.zero_le max) atOnce
      · have below : min < max := lt_of_le_of_ne order fun same =>
          different ⟨Nat.pos_of_ne_zero zero, same⟩
        have positive : 0 < max := Nat.zero_lt_of_lt below
        obtain ⟨call, drawn⟩ := fair (max - 1) (Nat.sub_one_lt_of_lt positive) 0
        refine drawsRight_of_enough wide high positive order (Or.inr ⟨0 + call, ?_⟩)
        rw [remainder_of_pos positive, drawn]
        exact decide_eq_true (Nat.not_lt.mpr (Nat.le_sub_one_of_lt below))
    · refine ⟨0, [], ?_, fun within => absurd within order⟩
      rw [gdDrawRandomPixels, if_pos (Nat.not_le.mp order)]

/-- An ordinary call. -/
theorem drawsRight_iff_ordinary : DrawsRight id (fun _ => 0) ⟨10, 10⟩ 30 100 :=
  (drawsRight_iff (fun _ => 0) (by decide) (by decide) (id_takesEveryResidue 100)).mpr (by decide)

/-- **One pixel, no more and no less**: the call does not return. -/
theorem onePixel_never :
    TakesEveryResidue id 1 ∧ (∀ fuel, gdDrawRandomPixels id (fun _ => 0) fuel ⟨10, 10⟩ 1 1 = none) ∧
      ¬ DrawsRight id (fun _ => 0) ⟨10, 10⟩ 1 1 := by
  refine ⟨id_takesEveryResidue 1, fun fuel => ?_, not_drawsRight_of_equal (by decide) rfl⟩
  rw [gdDrawRandomPixels, if_neg (by decide), Option.map_eq_none_iff,
    Option.eq_none_iff_forall_not_mem]
  intro picked ends
  refine not_returns_of_rejected (by decide) (fun call => ?_) picked ⟨fuel, ends⟩
  rw [remainder_of_pos Nat.zero_lt_one, Nat.mod_one]
  rfl

end Returning

end Bacteria.Images
