/-
**Pushing values by a format string.**

`getparams` of libbacteria/lua/utils.c, with `LUA_PUSHTABLESTRING` and `LUA_PUSHTABLENUMBER` of lua.h.

* `VaArg`, `Frame` — the arguments behind the format, and the state of a call; `free` counts the slots
  of the Lua stack that are left, which nothing here asks Lua to extend.
* `pushTable` — the two macros; `caseI` … `caseN` — the cases of the `switch`; those of `s` and `b` have
  no `break`.
* `Item` — a letter with the arguments that match it; `effect` — what the letter is for.
* `Follows` — what the call is to do; `Fits` — when it does; `follows_iff`.
* `not_returned_of_runsOn` — the call does not return from a format with an `s` or a `b`.
-/

import Bacteria.Lib.LuaFields

namespace Bacteria.Scripts

open Clib Lua

/-! ### The function -/

section Source

variable {ν : Type} [DecidableEq ν] (num : Numerals ν)

/-- An argument behind the format. -/
inductive VaArg (ν : Type) where
  | double (x : ν)
  | charPtr (text : Option CString)
  | int (n : Int32)

/-- The arguments that are left, the stack with its free slots, and the tables. -/
structure Frame (ν : Type) where
  ap : List (VaArg ν)
  stack : Stack ν
  free : Nat
  tables : Contents ν

/-- A push; the slot has to be there. -/
def Frame.push (s : Frame ν) (value : Value ν) : Ending (Frame ν) :=
  match s.free with
  | 0 => .undefined
  | free + 1 => .returned { s with stack := Lua.push s.stack value, free := free }

/-- `lua_settable(L, -3)`. -/
def Frame.settable (s : Frame ν) : Ending (Frame ν) := do
  let (tables, stack) ← Lua.settable s.tables s.stack
  return { s with tables := tables, stack := stack, free := s.free + 2 }

/-- `va_arg(ap, double)`. -/
def vaDouble (s : Frame ν) : Ending (ν × Frame ν) :=
  match s.ap with
  | .double x :: ap => .returned (x, { s with ap := ap })
  | _ => .undefined

/-- `va_arg(ap, char *)`. -/
def vaCharPtr (s : Frame ν) : Ending (Option CString × Frame ν) :=
  match s.ap with
  | .charPtr text :: ap => .returned (text, { s with ap := ap })
  | _ => .undefined

/-- `va_arg(ap, int)`. -/
def vaInt (s : Frame ν) : Ending (Int32 × Frame ν) :=
  match s.ap with
  | .int n :: ap => .returned (n, { s with ap := ap })
  | _ => .undefined

/-- `case 'i'`. -/
def caseI (s : Frame ν) : Ending (Frame ν) := do
  let (x, s) ← vaDouble s
  s.push (.number x)

/-- `LUA_PUSHTABLESTRING` and `LUA_PUSHTABLENUMBER`: the key is pushed, then the value, and both are
stored. -/
def pushTable (read : Frame ν → Ending (Value ν × Frame ν)) (s : Frame ν) : Ending (Frame ν) := do
  let (key, s) ← vaCharPtr s
  let s ← s.push (charPtrValue key)
  let (value, s) ← read s
  let s ← s.push value
  s.settable

/-- What `lua_pushstring(L, va_arg(ap, char *))` pushes. -/
def stringValue (s : Frame ν) : Ending (Value ν × Frame ν) := do
  let (text, s) ← vaCharPtr s
  return (charPtrValue text, s)

/-- What `lua_pushnumber(L, va_arg(ap, int))` pushes. -/
def numberValue (s : Frame ν) : Ending (Value ν × Frame ν) := do
  let (n, s) ← vaInt s
  return (.number (num.ofInt n.toInt), s)

/-- `case 'm'`. -/
def caseM (s : Frame ν) : Ending (Frame ν) := pushTable stringValue s

/-- `case 'b'`, which runs on into `case 'm'`. -/
def caseB (s : Frame ν) : Ending (Frame ν) := do
  let (flag, s) ← vaInt s
  let s ← s.push (.boolean (flag ≠ 0))
  caseM s

/-- `case 's'`, which runs on into `case 'b'`. -/
def caseS (s : Frame ν) : Ending (Frame ν) := do
  let (text, s) ← stringValue s
  let s ← s.push text
  caseB s

/-- `case 'g'`. -/
def caseG (s : Frame ν) : Ending (Frame ν) := pushTable (numberValue num) s

/-- `case 'n'`. -/
def caseN (s : Frame ν) : Ending (Frame ν) := s.push .nil

/-- The `switch`; its default prints a warning. -/
def switch (letter : Byte) (s : Frame ν) : Ending (Frame ν) :=
  if letter = charByte 'i' then caseI s
  else if letter = charByte 's' then caseS s
  else if letter = charByte 'b' then caseB s
  else if letter = charByte 'm' then caseM s
  else if letter = charByte 'g' then caseG num s
  else if letter = charByte 'n' then caseN s
  else .returned s

/-- The loop over the format. -/
def loop : Bytes → Frame ν → Ending (Frame ν)
  | [], s => .returned s
  | letter :: params, s => do
    let s ← switch num letter s
    loop params s

/-- `getparams`. -/
def getparams (params : Option CString) (s : Frame ν) : Ending (Frame ν) :=
  match params with
  | none => .returned s
  | some params => loop num params.bytes s

end Source

/-! ### Formats and what they are for -/

/-- A letter of a format with arguments that match it. -/
inductive Item (ν : Type) where
  | i (x : ν)
  | s (text : CString)
  | b (flag : Int32)
  | m (key value : CString)
  | g (key : CString) (number : Int32)
  | n

namespace Item

section Items

variable {ν : Type}

def letter : Item ν → Byte
  | .i _ => charByte 'i'
  | .s _ => charByte 's'
  | .b _ => charByte 'b'
  | .m _ _ => charByte 'm'
  | .g _ _ => charByte 'g'
  | .n => charByte 'n'

theorem letter_ne_zero (item : Item ν) : item.letter ≠ 0 := by
  cases item <;> rw [letter] <;> decide

def args : Item ν → List (VaArg ν)
  | .i x => [.double x]
  | .s text => [.charPtr (some text)]
  | .b flag => [.int flag]
  | .m key value => [.charPtr (some key), .charPtr (some value)]
  | .g key number => [.charPtr (some key), .int number]
  | .n => []

/-- The value that the letter pushes. -/
def pushed : Item ν → Option (Value ν)
  | .i x => some (.number x)
  | .s text => some (.string text.bytes)
  | .b flag => some (.boolean (flag ≠ 0))
  | .n => some .nil
  | _ => none

/-- The field that the letter stores. -/
def field (num : Numerals ν) : Item ν → Option (Value ν × Value ν)
  | .m key value => some (.string key.bytes, .string value.bytes)
  | .g key number => some (.string key.bytes, .number (num.ofInt number.toInt))
  | _ => none

/-- The letter stores a field. -/
def stores : Item ν → Bool
  | .m _ _ => true
  | .g _ _ => true
  | _ => false

/-- The letter has a case without a `break`. -/
def runsOn : Item ν → Bool
  | .s _ => true
  | .b _ => true
  | _ => false

/-- The slots of the stack that the letter needs. -/
def slots (item : Item ν) : Nat := if item.stores then 2 else 1

variable [DecidableEq ν]

/-- **What a letter is for**: a value on the stack, or a field in the table on top of it. -/
def effect (num : Numerals ν) (state : Stack ν × Contents ν) (item : Item ν) :
    Option (Stack ν × Contents ν) :=
  match item.field num with
  | some (key, value) => storeTop key value state
  | none => some (item.pushed.toList ++ state.1, state.2)

end Items

end Item

section Formats

variable {ν : Type}

/-- The format with these letters. -/
def formatOf (items : List (Item ν)) : CString where
  bytes := items.map Item.letter
  noNul member := by
    obtain ⟨item, _, zero⟩ := List.mem_map.mp member
    exact item.letter_ne_zero zero

/-- The arguments that match it. -/
def argsOf (items : List (Item ν)) : List (VaArg ν) := items.flatMap Item.args

variable [DecidableEq ν] (num : Numerals ν) (items : List (Item ν)) (more : List (VaArg ν))
  (stack : Stack ν) (free : Nat) (tables : Contents ν)

/-- **The call follows its format**: it returns with each letter's effect in turn and none but the
matching arguments consumed, and the stack has grown by the values pushed. -/
def Follows : Prop :=
  ∃ stack' tables',
    items.foldlM (Item.effect num) (stack, tables) = some (stack', tables') ∧
      getparams num (some (formatOf items)) ⟨argsOf items ++ more, stack, free, tables⟩ =
        .returned ⟨more, stack', free - items.countP (!·.stores), tables'⟩ ∧
      stack' = (items.filterMap Item.pushed).reverse ++ stack ∧
      stack'.length = stack.length + items.countP (!·.stores)

/-- Every letter finds the slots that it needs. -/
def Room : List (Item ν) → Nat → Prop
  | [], _ => True
  | item :: items, free => item.slots ≤ free ∧ Room items (if item.stores then free else free - 1)

/-- **When the call follows its format.** -/
structure Fits : Prop where
  /-- There is no `s` and no `b`. -/
  stops : ∀ item ∈ items, item.runsOn = false
  /-- A letter that stores a field comes before the letters that push. -/
  storesFirst : items.Pairwise fun earlier later => later.stores → earlier.stores
  /-- There is a table on top, if one is needed. -/
  table : (∃ item ∈ items, item.stores) → ((top stack).fields? tables).isSome
  room : Room items free

end Formats

/-! ### One letter -/

section Letters

variable {ν : Type} [DecidableEq ν] {num : Numerals ν}

omit [DecidableEq ν] in
theorem push_eq_returned_iff {s s' : Frame ν} {value : Value ν} :
    s.push value = .returned s' ↔
      1 ≤ s.free ∧ s' = ⟨s.ap, value :: s.stack, s.free - 1, s.tables⟩ := by
  obtain ⟨ap, stack, free, tables⟩ := s
  cases free with
  | zero => simp [Frame.push]
  | succ free => simp [Frame.push, Lua.push, eq_comm]

theorem settable_eq_returned_iff {ap : List (VaArg ν)} {key value : Value ν} {stack : Stack ν}
    {free : Nat} {tables : Contents ν} (notNil : key ≠ .nil) {s' : Frame ν} :
    Frame.settable ⟨ap, value :: key :: stack, free, tables⟩ = .returned s' ↔
      ∃ after, storeTop key value (stack, tables) = some after ∧
        s' = ⟨ap, after.1, free + 2, after.2⟩ := by
  rw [Frame.settable, bind_eq_returned_iff]
  constructor
  · rintro ⟨result, done, same⟩
    exact ⟨(result.2, result.1), (Lua.settable_eq_returned_iff notNil).mp done,
      (Ending.returned.inj same).symm⟩
  · rintro ⟨after, stored, rfl⟩
    exact ⟨(after.2, after.1), (Lua.settable_eq_returned_iff notNil).mpr stored, rfl⟩

/-- **A key and a value are pushed and stored**, if the value is made of one argument. -/
theorem pushTable_eq_returned_iff {read : Frame ν → Ending (Value ν × Frame ν)} {key : CString}
    {arg : VaArg ν} {value : Value ν} {ap : List (VaArg ν)}
    (reads : ∀ stack free tables,
      read ⟨arg :: ap, stack, free, tables⟩ = .returned (value, ⟨ap, stack, free, tables⟩))
    {stack : Stack ν} {free : Nat} {tables : Contents ν} {s' : Frame ν} :
    pushTable read ⟨.charPtr (some key) :: arg :: ap, stack, free, tables⟩ = .returned s' ↔
      2 ≤ free ∧ ∃ after, storeTop (.string key.bytes) value (stack, tables) = some after ∧
        s' = ⟨ap, after.1, free, after.2⟩ := by
  match free with
  | 0 => exact iff_of_false (fun same => by cases same) (fun found => by omega)
  | free + 1 =>
    have keyPushed : pushTable read ⟨.charPtr (some key) :: arg :: ap, stack, free + 1, tables⟩ =
        (read ⟨arg :: ap, .string key.bytes :: stack, free, tables⟩ >>= fun (value, s) =>
          s.push value >>= Frame.settable) := rfl
    rw [keyPushed, reads, returned_bind]
    match free with
    | 0 => exact iff_of_false (fun same => by cases same) (fun found => by omega)
    | free + 1 =>
      have stored : Frame.settable ⟨ap, value :: .string key.bytes :: stack, free, tables⟩ =
          .returned s' ↔ _ := settable_eq_returned_iff (fun same => by cases same)
      exact stored.trans ⟨fun found => ⟨by omega, found⟩, And.right⟩

/-- **The step of one letter**, if its case ends with a `break`. -/
theorem switch_eq_returned_iff {item : Item ν} (stops : item.runsOn = false)
    {more : List (VaArg ν)} {stack : Stack ν} {free : Nat} {tables : Contents ν} {s' : Frame ν} :
    switch num item.letter ⟨item.args ++ more, stack, free, tables⟩ = .returned s' ↔
      item.slots ≤ free ∧ ∃ after, item.effect num (stack, tables) = some after ∧
        s' = ⟨more, after.1, if item.stores then free else free - 1, after.2⟩ := by
  cases item with
  | s text => cases stops
  | b flag => cases stops
  | m key value => exact pushTable_eq_returned_iff fun _ _ _ => rfl
  | g key number => exact pushTable_eq_returned_iff fun _ _ _ => rfl
  | i x =>
    refine push_eq_returned_iff.trans (and_congr_right fun _ => ⟨fun same => ⟨_, rfl, same⟩, ?_⟩)
    rintro ⟨after, effect, same⟩
    obtain rfl := Option.some.inj effect
    exact same
  | n =>
    refine push_eq_returned_iff.trans (and_congr_right fun _ => ⟨fun same => ⟨_, rfl, same⟩, ?_⟩)
    rintro ⟨after, effect, same⟩
    obtain rfl := Option.some.inj effect
    exact same

/-- **The loop over letters that all end with a `break`.** -/
theorem loop_eq_returned_iff {items : List (Item ν)} (stops : ∀ item ∈ items, item.runsOn = false)
    {more : List (VaArg ν)} {stack : Stack ν} {free : Nat} {tables : Contents ν} {s' : Frame ν} :
    loop num (items.map Item.letter) ⟨argsOf items ++ more, stack, free, tables⟩ =
        .returned s' ↔
      Room items free ∧ ∃ after, items.foldlM (Item.effect num) (stack, tables) = some after ∧
        s' = ⟨more, after.1, free - items.countP (!·.stores), after.2⟩ := by
  induction items generalizing stack free tables with
  | nil => simp [loop, argsOf, Room, eq_comm]
  | cons item items ih =>
    have step := @switch_eq_returned_iff ν _ num item (stops item List.mem_cons_self)
      (argsOf items ++ more) stack free tables
    have rest := fun stack free tables =>
      @ih (fun other member => stops other (List.mem_cons_of_mem _ member)) stack free tables
    have arguments : argsOf (item :: items) ++ more = item.args ++ (argsOf items ++ more) := by
      rw [argsOf, List.flatMap_cons, List.append_assoc, argsOf]
    have left : (if item.stores then free else free - 1) - items.countP (!·.stores) =
        free - (item :: items).countP (!·.stores) := by
      rw [List.countP_cons]
      cases item.stores with
      | true => rfl
      | false =>
        simp only [Bool.not_false, if_true, Bool.false_eq_true, if_false]
        omega
    rw [List.map_cons, loop, arguments, bind_eq_returned_iff, Room, List.foldlM_cons]
    constructor
    · rintro ⟨s, here, later⟩
      obtain ⟨slots, after, effect, rfl⟩ := step.mp here
      obtain ⟨room, last, effects, rfl⟩ := (rest _ _ _).mp later
      refine ⟨⟨slots, room⟩, last, ?_, ?_⟩
      · rw [effect]
        exact effects
      · rw [left]
    · rintro ⟨⟨slots, room⟩, last, effects, rfl⟩
      obtain ⟨after, effect, effects⟩ := Option.bind_eq_some_iff.mp effects
      refine ⟨_, step.mpr ⟨slots, after, effect, rfl⟩, (rest _ _ _).mpr ⟨room, last, effects, ?_⟩⟩
      rw [left]

end Letters

section Effects

variable {ν : Type} [DecidableEq ν] {num : Numerals ν} {item : Item ν} {items : List (Item ν)}
  {stack : Stack ν} {tables : Contents ν}

/-- A letter that stores a field leaves the stack as it is and has its table still on top. -/
theorem effect_of_stores (stores : item.stores = true) {after : Stack ν × Contents ν}
    (effect : item.effect num (stack, tables) = some after) :
    after.1 = stack ∧ item.pushed = none ∧ ((top stack).fields? tables).isSome ∧
      ((top after.1).fields? after.2).isSome := by
  cases item with
  | m key value =>
    obtain ⟨same, before, behind⟩ := storeTop_eq_some effect
    exact ⟨same, rfl, before, behind⟩
  | g key number =>
    obtain ⟨same, before, behind⟩ := storeTop_eq_some effect
    exact ⟨same, rfl, before, behind⟩
  | _ => cases stores

/-- Any other letter leaves a value on top that is no table. -/
theorem effect_of_pushes (pushes : item.stores = false) :
    ∃ value, item.pushed = some value ∧ value.fields? tables = none ∧
      item.effect num (stack, tables) = some (value :: stack, tables) := by
  cases item with
  | m key value => cases pushes
  | g key number => cases pushes
  | _ => exact ⟨_, rfl, rfl, rfl⟩

/-- **The effects leave the values pushed on the stack.** -/
theorem effects_stack {after : Stack ν × Contents ν}
    (effects : items.foldlM (Item.effect num) (stack, tables) = some after) :
    after.1 = (items.filterMap Item.pushed).reverse ++ stack := by
  induction items generalizing stack tables with
  | nil =>
    obtain rfl := Option.some.inj effects
    rfl
  | cons item items ih =>
    obtain ⟨between, effect, effects⟩ := Option.bind_eq_some_iff.mp effects
    rw [ih effects, List.filterMap_cons]
    cases kind : item.stores with
    | true =>
      obtain ⟨same, none, _⟩ := effect_of_stores kind effect
      rw [same, none]
    | false =>
      obtain ⟨value, pushed, _, effect'⟩ := @effect_of_pushes ν _ num item stack tables kind
      obtain rfl := Option.some.inj (effect'.symm.trans effect)
      simp only [pushed, List.reverse_cons, List.append_assoc, List.singleton_append]

omit [DecidableEq ν] in
theorem pushed_length (items : List (Item ν)) :
    (items.filterMap Item.pushed).length = items.countP (!·.stores) := by
  induction items with
  | nil => rfl
  | cons item items ih => cases item <;> simp [List.filterMap_cons, Item.pushed, Item.stores, ih]

/-- A letter that stores a field has its effect on a table only. -/
theorem effect_isSome_iff (stores : item.stores = true) :
    (item.effect num (stack, tables)).isSome ↔ ((top stack).fields? tables).isSome := by
  cases item with
  | m key value => exact storeTop_isSome_iff
  | g key number => exact storeTop_isSome_iff
  | _ => cases stores

/-- **The letters can all have their effect** exactly if those that store a field come first and find
a table. -/
theorem effects_isSome_iff :
    (items.foldlM (Item.effect num) (stack, tables)).isSome ↔
      items.Pairwise (fun earlier later => later.stores → earlier.stores) ∧
        ((∃ item ∈ items, item.stores) → ((top stack).fields? tables).isSome) := by
  induction items generalizing stack tables with
  | nil => simp
  | cons item items ih =>
    rw [List.foldlM_cons, List.pairwise_cons]
    cases kind : item.stores with
    | true =>
      constructor
      · intro isSome
        obtain ⟨last, effects⟩ := Option.isSome_iff_exists.mp isSome
        obtain ⟨after, effect, effects⟩ := Option.bind_eq_some_iff.mp effects
        obtain ⟨_, _, isTable, _⟩ := effect_of_stores kind effect
        have rest := ih.mp (Option.isSome_of_eq_some effects)
        exact ⟨⟨fun _ _ _ => rfl, rest.1⟩, fun _ => isTable⟩
      · rintro ⟨⟨_, ordered⟩, table⟩
        have isTable := table ⟨item, List.mem_cons_self, kind⟩
        obtain ⟨after, effect⟩ := Option.isSome_iff_exists.mp
          ((@effect_isSome_iff ν _ num item stack tables kind).mpr isTable)
        obtain ⟨_, _, _, stillTable⟩ := effect_of_stores kind effect
        rw [effect]
        exact ih.mpr ⟨ordered, fun _ => stillTable⟩
    | false =>
      obtain ⟨value, _, noTable, effect⟩ := @effect_of_pushes ν _ num item stack tables kind
      have rest := @ih (value :: stack) tables
      rw [effect]
      refine rest.trans ?_
      have covered : ¬ ((top (value :: stack)).fields? tables).isSome := by
        rw [show top (value :: stack) = value from rfl, noTable]
        exact Bool.false_ne_true
      constructor
      · rintro ⟨ordered, table⟩
        have none : ∀ other ∈ items, ¬ other.stores := fun other member stores =>
          covered (table ⟨other, member, stores⟩)
        refine ⟨⟨fun other member stores => absurd stores (none other member), ordered⟩, ?_⟩
        rintro ⟨other, member, stores⟩
        rcases List.mem_cons.mp member with rfl | member
        · exact absurd stores (by rw [kind]; exact Bool.false_ne_true)
        · exact absurd stores (none other member)
      · rintro ⟨⟨first, ordered⟩, _⟩
        refine ⟨ordered, fun ⟨other, member, stores⟩ => ?_⟩
        exact absurd (first other member stores) Bool.false_ne_true

end Effects

/-! ### The letters without a `break` -/

section RunningOn

variable {ν : Type} {s s' : Frame ν}

theorem vaCharPtr_keeps {text : Option CString} (read : vaCharPtr s = .returned (text, s')) :
    s'.stack = s.stack ∧ s'.tables = s.tables := by
  rw [vaCharPtr] at read
  split at read
  · obtain ⟨_, rfl⟩ := Prod.mk.inj (Ending.returned.inj read)
    exact ⟨rfl, rfl⟩
  · cases read

theorem stringValue_keeps {value : Value ν} (read : stringValue s = .returned (value, s')) :
    s'.stack = s.stack ∧ s'.tables = s.tables := by
  obtain ⟨⟨text, s₁⟩, hasText, same⟩ := bind_eq_returned_iff.mp read
  obtain ⟨_, rfl⟩ := Prod.mk.inj (Ending.returned.inj same)
  exact vaCharPtr_keeps hasText

theorem push_keeps {value : Value ν} (pushed : s.push value = .returned s') :
    s'.stack = value :: s.stack ∧ s'.tables = s.tables := by
  obtain ⟨_, rfl⟩ := push_eq_returned_iff.mp pushed
  exact ⟨rfl, rfl⟩

variable [DecidableEq ν]

/-- The case of `m` does not return when there is no table on top. -/
theorem caseM_not_returned {value : Value ν} {rest : Stack ν} (stack : s.stack = value :: rest)
    (noTable : value.fields? s.tables = none) : caseM s ≠ .returned s' := by
  intro returned
  obtain ⟨⟨key, s₁⟩, hasKey, returned⟩ := bind_eq_returned_iff.mp returned
  obtain ⟨s₂, pushedKey, returned⟩ := bind_eq_returned_iff.mp returned
  obtain ⟨⟨text, s₃⟩, hasText, returned⟩ := bind_eq_returned_iff.mp returned
  obtain ⟨s₄, pushedText, returned⟩ := bind_eq_returned_iff.mp returned
  obtain ⟨result, stored, _⟩ := bind_eq_returned_iff.mp returned
  obtain ⟨stack₁, tables₁⟩ := vaCharPtr_keeps hasKey
  obtain ⟨stack₂, tables₂⟩ := push_keeps pushedKey
  obtain ⟨stack₃, tables₃⟩ := stringValue_keeps hasText
  obtain ⟨stack₄, tables₄⟩ := push_keeps pushedText
  rw [stack₄, stack₃, stack₂, stack₁, stack, tables₄, tables₃, tables₂, tables₁] at stored
  exact settable_not_returned noTable result stored

/-- **The case of `b` never returns**: the value it has pushed is no table. -/
theorem caseB_not_returned : caseB s ≠ .returned s' := by
  intro returned
  obtain ⟨⟨flag, s₁⟩, _, returned⟩ := bind_eq_returned_iff.mp returned
  obtain ⟨s₂, pushed, returned⟩ := bind_eq_returned_iff.mp returned
  exact caseM_not_returned (push_keeps pushed).1 rfl returned

/-- **Nor does the case of `s`.** -/
theorem caseS_not_returned : caseS s ≠ .returned s' := by
  intro returned
  obtain ⟨⟨text, s₁⟩, _, returned⟩ := bind_eq_returned_iff.mp returned
  obtain ⟨s₂, _, returned⟩ := bind_eq_returned_iff.mp returned
  exact caseB_not_returned returned

/-- **A call does not return from a format with an `s` or a `b`**, whatever its arguments. -/
theorem not_returned_of_runsOn {num : Numerals ν} {items : List (Item ν)}
    (runsOn : ∃ item ∈ items, item.runsOn = true) :
    loop num (items.map Item.letter) s ≠ .returned s' := by
  induction items generalizing s with
  | nil =>
    obtain ⟨item, member, _⟩ := runsOn
    cases member
  | cons item items ih =>
    intro returned
    obtain ⟨s₁, here, later⟩ := bind_eq_returned_iff.mp returned
    obtain ⟨other, member, broken⟩ := runsOn
    rcases List.mem_cons.mp member with rfl | member
    · cases other with
      | s text => exact caseS_not_returned here
      | b flag => exact caseB_not_returned here
      | _ => cases broken
    · exact ih ⟨other, member, broken⟩ later

end RunningOn

/-! ### The formats that are followed -/

section Formats

variable {ν : Type} [DecidableEq ν]

/-- **A call follows its format exactly if it fits.** -/
theorem follows_iff (num : Numerals ν) (items : List (Item ν)) (more : List (VaArg ν))
    (stack : Stack ν) (free : Nat) (tables : Contents ν) :
    Follows num items more stack free tables ↔ Fits items stack free tables := by
  constructor
  · rintro ⟨stack', tables', effects, returned, _, _⟩
    have stops : ∀ item ∈ items, item.runsOn = false := by
      intro item member
      cases kind : item.runsOn with
      | true => exact absurd returned (not_returned_of_runsOn ⟨item, member, kind⟩)
      | false => rfl
    obtain ⟨storesFirst, table⟩ := effects_isSome_iff.mp (Option.isSome_of_eq_some effects)
    exact ⟨stops, storesFirst, table, ((loop_eq_returned_iff stops).mp returned).1⟩
  · intro fits
    obtain ⟨⟨stack', tables'⟩, effects⟩ := Option.isSome_iff_exists.mp
      ((@effects_isSome_iff ν _ num items stack tables).mpr ⟨fits.storesFirst, fits.table⟩)
    have pushed : stack' = (items.filterMap Item.pushed).reverse ++ stack := effects_stack effects
    refine ⟨stack', tables', effects, ?_, pushed, ?_⟩
    · exact (loop_eq_returned_iff fits.stops).mpr ⟨fits.room, (stack', tables'), effects, rfl⟩
    · rw [pushed, List.length_append, List.length_reverse, pushed_length, Nat.add_comm]

example (num : Numerals ν) (x : ν) (tables : Contents ν) :
    getparams num (some (formatOf [.i x, .n])) ⟨argsOf [.i x, .n], [], 20, tables⟩ =
      .returned ⟨[], [.nil, .number x], 18, tables⟩ := rfl

end Formats

/-- A text for an argument. -/
def sampleText : CString := ⟨ascii "text", by decide⟩

/-- The format `s`. -/
def loneString : List (Item Int) := [.s sampleText]

/-- The format `sbm`. -/
def stringFlagField : List (Item Int) := [.s sampleText, .b 1, .m sampleText sampleText]

/-- **The letter `s` is not followed**: behind its string the call looks for an `int`, and where it
finds one, for a table under the key and the value, where the boolean is. -/
theorem letterS_runsOn :
    getparams Numerals.integers (some (formatOf loneString))
        ⟨argsOf loneString, [], 20, fun _ => none⟩ = .undefined ∧
      getparams Numerals.integers (some (formatOf stringFlagField))
        ⟨argsOf stringFlagField, [.object 0], 20, fun _ => some fun _ => .nil⟩ = .raised ∧
      ¬ Follows Numerals.integers loneString [] [] 20 (fun _ => none) := by
  refine ⟨rfl, rfl, ?_⟩
  rintro ⟨stack', tables', _, returned, _, _⟩
  exact not_returned_of_runsOn ⟨.s sampleText, List.mem_cons_self, rfl⟩ returned

end Bacteria.Scripts
