/-
**`join_addresses` as Lua calls it.**

The binding in libbacteria/lua/libnet.c joins its arguments two at a time.

* `luaJoinTurn`, `luaJoinAddresses` — the loop over the arguments, and the string it pushes.
* `luaJoin_text` — one induction over the arguments: the block of the loop holds the addresses so far.
* `joinAddresses_intercalates` — the variadic call and the binding give one text: the addresses with
  separators between them.
-/

import Bacteria.Net.Join

namespace Bacteria.Net

open Clib

/-- One turn of the loop of `lua_join_addresses`; `none` inside is a null `pAddr`, `none` outside a
`strlen(pAddr)` that leaves the block. -/
def luaJoinTurn (pAddr : Option Block) (argument : CString) : Option (Option Block) :=
  match pAddr with
  | none => some (some (joinAddresses argument []))
  | some pAddr => pAddr.cString?.map fun text => some (joinAddresses (cstr text) [argument])

/-- `lua_join_addresses`: what it pushes, nil without arguments. -/
def luaJoinAddresses (arguments : List CString) : Option (Option Bytes) :=
  (arguments.foldlM luaJoinTurn none).bind fun pAddr =>
    match pAddr with
    | none => some none
    | some pAddr => pAddr.cString?.map some

/-- **One turn joins one address** to those in the block. -/
theorem luaJoinTurn_text {addresses : List CString} (nonempty : addresses ≠ []) {pAddr : Block}
    (text : pAddr.cString? = some (addressText addresses)) (argument : CString) :
    ∃ joined, luaJoinTurn (some pAddr) argument = some (some joined) ∧
      joined.cString? = some (addressText (addresses ++ [argument])) := by
  refine ⟨_, by rw [luaJoinTurn, text, Option.map_some], ?_⟩
  have whole : (cstr (addressText addresses)).bytes = addressText addresses :=
    (cstr_eq_iff _).mpr (addressText_noNul addresses)
  have two : addressText [cstr (addressText addresses), argument] =
      (cstr (addressText addresses)).bytes ++ splitAddrChar :: argument.bytes := by
    simp [addressText, List.intercalate_cons_cons]
  rw [joinAddresses_text, two, whole, addressText_append addresses nonempty]

/-- **The loop**: from a block with some addresses, it joins the other arguments. -/
theorem luaJoin_text {addresses : List CString} (nonempty : addresses ≠ []) {pAddr : Block}
    (text : pAddr.cString? = some (addressText addresses)) (others : List CString) :
    ∃ joined, others.foldlM luaJoinTurn (some pAddr) = some (some joined) ∧
      joined.cString? = some (addressText (addresses ++ others)) := by
  induction others generalizing addresses pAddr with
  | nil => exact ⟨pAddr, rfl, by rwa [List.append_nil]⟩
  | cons argument others ih =>
    obtain ⟨next, turn, nextText⟩ := luaJoinTurn_text nonempty text argument
    obtain ⟨joined, rest, joinedText⟩ :=
      ih (List.append_ne_nil_of_right_ne_nil addresses (List.cons_ne_nil argument [])) nextText
    refine ⟨joined, ?_, ?_⟩
    · rw [List.foldlM_cons, turn]
      exact rest
    · rwa [List.append_assoc] at joinedText

/-- The binding pushes the addresses with separators between them. -/
theorem luaJoinAddresses_text (addr : CString) (others : List CString) :
    luaJoinAddresses (addr :: others) = some (some (addressText (addr :: others))) := by
  obtain ⟨joined, loop, text⟩ :=
    luaJoin_text (List.cons_ne_nil addr []) (joinAddresses_text addr []) others
  have all : (addr :: others).foldlM luaJoinTurn none = some (some joined) := loop
  rw [luaJoinAddresses, all]
  simp only [Option.bind_some, text, Option.map_some, List.singleton_append]

/-- **`join_addresses` is intercalation, both ways it is called**: the block of the variadic call is
written inside its bounds and holds, terminated, the addresses with separators between them; the
binding pushes the same text. -/
theorem joinAddresses_intercalates (addr : CString) (others : List CString) :
    let text := [splitAddrChar].intercalate ((addr :: others).map CString.bytes)
    (joinAddresses addr others).InBounds ∧ (joinAddresses addr others).cString? = some text ∧
      luaJoinAddresses (addr :: others) = some (some text) :=
  ⟨joinAddresses_inBounds addr others, joinAddresses_text addr others,
    luaJoinAddresses_text addr others⟩

/-- The call of the repository's test. -/
example :
    luaJoinAddresses [⟨ascii "127.0.0.1", by decide⟩, ⟨ascii "192.168.0.1", by decide⟩] =
      some (some (ascii "127.0.0.1;192.168.0.1")) := by decide

end Bacteria.Net
