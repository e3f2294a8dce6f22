/-
**Texts made of terminated fields.**

`terminate c fields` writes every field followed by the terminator `c`. Reading back, `fields c text`
are the terminated fields of any text and `remnant c text` is what follows the last terminator, both
taken from `List.splitOn`.

* `terminate_fields` — every text is its terminated fields followed by its remnant.
* `fields_terminate` — the fields of terminated clean fields are these fields.
* `fields_cut` — one step of a left-to-right reader (`cut`) takes off the first field.
* `count_eq_length_fields` — as many fields as terminators.
-/

import Bacteria.Lib.CString

namespace Clib

section Fields

variable {α : Type}

/-- Every field followed by the terminator `c`. -/
def terminate (c : α) (texts : List (List α)) : List α := texts.flatMap fun text => text ++ [c]

@[simp] theorem terminate_nil (c : α) : terminate c [] = [] := rfl

@[simp] theorem terminate_cons (c : α) (text : List α) (texts : List (List α)) :
    terminate c (text :: texts) = text ++ c :: terminate c texts := by
  simp [terminate]

theorem terminate_append (c : α) (first second : List (List α)) :
    terminate c (first ++ second) = terminate c first ++ terminate c second := by
  simp [terminate]

variable [DecidableEq α]

/-- The fields of a text that are followed by `c`. -/
def fields (c : α) (text : List α) : List (List α) := (text.splitOn c).dropLast

/-- What follows the last `c` of a text. -/
def remnant (c : α) (text : List α) : List α :=
  (text.splitOn c).getLast (List.splitOn_ne_nil c text)

theorem count_terminate (c : α) {texts : List (List α)} (clean : ∀ text ∈ texts, c ∉ text) :
    (terminate c texts).count c = texts.length := by
  induction texts with
  | nil => rfl
  | cons text texts ih =>
    have tailClean : ∀ other ∈ texts, c ∉ other := fun other member =>
      clean other (List.mem_cons_of_mem _ member)
    have headClean : text.count c = 0 := List.count_eq_zero.mpr (clean text List.mem_cons_self)
    rw [terminate_cons, List.count_append, List.count_cons_self, headClean, ih tailClean,
      List.length_cons, Nat.zero_add]

/-! ### Reading one field after another -/

theorem splitOn_cut {c : α} {text before after : List α}
    (found : cut c text = some (before, after)) :
    text.splitOn c = before :: after.splitOn c := by
  obtain ⟨clean, rfl⟩ := cut_eq_some.mp found
  exact List.splitOn_append_cons_self_of_not_mem clean after

theorem fields_cut {c : α} {text before after : List α}
    (found : cut c text = some (before, after)) :
    fields c text = before :: fields c after := by
  rw [fields, splitOn_cut found, List.dropLast_cons_of_ne_nil (List.splitOn_ne_nil c after)]
  rfl

theorem remnant_cut {c : α} {text before after : List α}
    (found : cut c text = some (before, after)) :
    remnant c text = remnant c after := by
  simp only [remnant, splitOn_cut found]
  exact List.getLast_cons _

theorem fields_clean {c : α} {text : List α} (clean : c ∉ text) : fields c text = [] := by
  rw [fields, List.splitOn_eq_singleton clean]
  rfl

theorem remnant_clean {c : α} {text : List α} (clean : c ∉ text) : remnant c text = text := by
  simp only [remnant, List.splitOn_eq_singleton clean, List.getLast_singleton]

/-- **Induction along the fields of a text**: a text without `c`, or a clean field, its terminator
and a shorter text. -/
theorem fieldInduction (c : α) {motive : List α → Prop}
    (clean : ∀ text, c ∉ text → motive text)
    (field : ∀ before after, c ∉ before → motive after → motive (before ++ c :: after))
    (text : List α) : motive text := by
  generalize size : text.length = n
  induction n using Nat.strong_induction_on generalizing text with
  | _ n ih =>
    cases found : cut c text with
    | none => exact clean text (cut_eq_none.mp found)
    | some parts =>
      obtain ⟨before, after⟩ := parts
      obtain ⟨beforeClean, rfl⟩ := cut_eq_some.mp found
      refine field before after beforeClean (ih after.length ?_ after rfl)
      rw [List.length_append, List.length_cons] at size
      omega

theorem fields_append_cons {c : α} {before : List α} (clean : c ∉ before) (after : List α) :
    fields c (before ++ c :: after) = before :: fields c after :=
  fields_cut (cut_append clean after)

theorem remnant_append_cons {c : α} {before : List α} (clean : c ∉ before) (after : List α) :
    remnant c (before ++ c :: after) = remnant c after :=
  remnant_cut (cut_append clean after)

/-- **Every text is its terminated fields followed by its remnant.** -/
theorem terminate_fields (c : α) (text : List α) :
    terminate c (fields c text) ++ remnant c text = text := by
  induction text using fieldInduction c with
  | clean text clean => rw [fields_clean clean, remnant_clean clean, terminate_nil, List.nil_append]
  | field before after clean ih =>
    rw [fields_append_cons clean, remnant_append_cons clean, terminate_cons, List.append_assoc,
      List.cons_append, ih]

theorem fields_avoid (c : α) (text : List α) : ∀ field ∈ fields c text, c ∉ field := by
  induction text using fieldInduction c with
  | clean text clean => simp [fields_clean clean]
  | field before after clean ih =>
    rw [fields_append_cons clean]
    intro field member
    rcases List.mem_cons.mp member with rfl | member
    · exact clean
    · exact ih field member

theorem remnant_avoid (c : α) (text : List α) : c ∉ remnant c text := by
  induction text using fieldInduction c with
  | clean text clean => rwa [remnant_clean clean]
  | field before after clean ih => rwa [remnant_append_cons clean]

/-- A field is a part of the text. -/
theorem fields_subset {c : α} {text field : List α} (member : field ∈ fields c text) :
    field ⊆ text := by
  induction text using fieldInduction c with
  | clean text clean => simp [fields_clean clean] at member
  | field before after clean ih =>
    rw [fields_append_cons clean] at member
    rcases List.mem_cons.mp member with rfl | member
    · exact List.subset_append_left _ _
    · exact fun x inField => by simp [ih member inField]

/-- **The fields of terminated clean fields are these fields.** -/
theorem fields_terminate {c : α} {texts : List (List α)} (clean : ∀ text ∈ texts, c ∉ text)
    {rest : List α} (restClean : c ∉ rest) : fields c (terminate c texts ++ rest) = texts := by
  induction texts with
  | nil => exact fields_clean restClean
  | cons text texts ih =>
    have tailClean : ∀ other ∈ texts, c ∉ other := fun other member =>
      clean other (List.mem_cons_of_mem _ member)
    rw [terminate_cons, List.append_assoc, List.cons_append,
      fields_append_cons (clean text List.mem_cons_self), ih tailClean]

theorem remnant_terminate {c : α} {texts : List (List α)} (clean : ∀ text ∈ texts, c ∉ text)
    {rest : List α} (restClean : c ∉ rest) : remnant c (terminate c texts ++ rest) = rest := by
  induction texts with
  | nil => exact remnant_clean restClean
  | cons text texts ih =>
    have tailClean : ∀ other ∈ texts, c ∉ other := fun other member =>
      clean other (List.mem_cons_of_mem _ member)
    rw [terminate_cons, List.append_assoc, List.cons_append,
      remnant_append_cons (clean text List.mem_cons_self), ih tailClean]

/-- The number of terminators in a text is the number of its fields. -/
theorem count_eq_length_fields (c : α) (text : List α) : text.count c = (fields c text).length := by
  have remnantCount : (remnant c text).count c = 0 := List.count_eq_zero.mpr (remnant_avoid c text)
  conv_lhs => rw [← terminate_fields c text]
  rw [List.count_append, count_terminate c (fields_avoid c text), remnantCount, Nat.add_zero]

end Fields

end Clib
