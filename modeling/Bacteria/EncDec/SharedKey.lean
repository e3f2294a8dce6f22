/-
**`x25519_getSharedKey` and `lua_getSharedKey`.**

libbacteria/encdec/async/x25519.c and libbacteria/lua/libencdec.c.

* `PeerKey` — a public key of 32 bytes, as it comes from the network.
* `x25519GetSharedKey` — the secret and the length, each only as far as the call sets it.
* `pushLString` — `lua_pushlstring` of such a pair.
* `GivesUp` — the six exits; `Reports` — what the binding is for.
* `luaGetSharedKey_of_givesUp`, `luaGetSharedKey_of_shared` — what it does instead, and otherwise;
  `reports_iff` — it reports on no exit.
-/

import Bacteria.Lib.Lua
import Bacteria.Lib.X25519

namespace Bacteria.EncDec

open Clib Lua

/-- A public key of X25519. -/
structure PeerKey where
  bytes : Bytes
  size : bytes.length = 32

/-- `pubPeer[31] & 0x80`. -/
def PeerKey.highBit (pubPeer : PeerKey) : Bool := (pubPeer.bytes.getD 31 0 &&& 0x80) ≠ 0

/-- `x25519_getSharedKey`: the pointer, and `*skeylen` when it was set. -/
def x25519GetSharedKey (evp : EvpDerive) (pubPeer : PeerKey) : Option Bytes × Option Nat :=
  if pubPeer.highBit then (none, none)
  else if evp.deriveInit ≤ 0 then (none, none)
  else
    let pkey := evp.rawPublicKey pubPeer.bytes
    if evp.setPeer pkey ≤ 0 then (none, none)
    else if (evp.deriveLength pkey).1 ≤ 0 then (none, none)
    else
      let skeylen := (evp.deriveLength pkey).2
      if ¬ evp.malloc skeylen then (none, some skeylen)
      else if (evp.derive pkey).1 ≤ 0 then (none, some skeylen)
      else (some (evp.derive pkey).2, some (evp.derive pkey).2.length)

section Binding

variable {ν : Type}

/-- `lua_pushlstring`, `none` when it reads a length that was not set, or bytes behind a null
pointer. -/
def pushLString : Option Bytes → Option Nat → Option (Value ν)
  | _, none => none
  | none, some 0 => some (.string [])
  | none, some (_ + 1) => none
  | some text, some len => if len ≤ text.length then some (.string (text.take len)) else none

/-- How a call of the binding ends. -/
inductive Reported (ν : Type) where
  | raised
  | undefined
  | returned (values : List (Value ν))
deriving DecidableEq

/-- `lua_getSharedKey`: the key pair, if the first argument is one, and the peer's key. -/
def luaGetSharedKey (num : Numerals ν) (keysPair : Option EvpDerive) (pub : PeerKey) : Reported ν :=
  match keysPair with
  | none => .raised
  | some evp =>
    let shared0 := x25519GetSharedKey evp pub
    match pushLString shared0.1 shared0.2, shared0.2 with
    | some secret, some skeylen => .returned [secret, .number (num.ofInt skeylen)]
    | _, _ => .undefined

end Binding

/-- **The exits of `x25519_getSharedKey`**, in their order. -/
inductive GivesUp (evp : EvpDerive) (pub : PeerKey) : Prop where
  | notPubkey (high : pub.highBit = true)
  | deriveInit (fails : evp.deriveInit ≤ 0)
  | setPeer (fails : evp.setPeer (evp.rawPublicKey pub.bytes) ≤ 0)
  | deriveLength (fails : (evp.deriveLength (evp.rawPublicKey pub.bytes)).1 ≤ 0)
  | malloc (fails : evp.malloc (evp.deriveLength (evp.rawPublicKey pub.bytes)).2 = false)
  | derive (fails : (evp.derive (evp.rawPublicKey pub.bytes)).1 ≤ 0)

/-- **What the binding is for**: a secret of 32 bytes and its length, or nil or an error when there is
none. -/
structure Reports {ν : Type} (num : Numerals ν) (evp : EvpDerive) (pub : PeerKey) : Prop where
  secret : ¬ GivesUp evp pub → ∃ secret : Bytes, secret.length = 32 ∧
    luaGetSharedKey num (some evp) pub = .returned [.string secret, .number (num.ofInt 32)]
  error : GivesUp evp pub → luaGetSharedKey num (some evp) pub = .raised ∨
    ∃ rest, luaGetSharedKey num (some evp) pub = .returned (.nil :: rest)

section Exits

variable {ν : Type} {num : Numerals ν} {evp : EvpDerive} {pub : PeerKey}

/-- On an exit the pointer is null. -/
theorem x25519GetSharedKey_of_givesUp (gives : GivesUp evp pub) :
    (x25519GetSharedKey evp pub).1 = none := by
  rw [x25519GetSharedKey]
  by_cases high : pub.highBit
  · rw [if_pos high]
  by_cases init : evp.deriveInit ≤ 0
  · rw [if_neg high, if_pos init]
  by_cases peer : evp.setPeer (evp.rawPublicKey pub.bytes) ≤ 0
  · rw [if_neg high, if_neg init, if_pos peer]
  by_cases length : (evp.deriveLength (evp.rawPublicKey pub.bytes)).1 ≤ 0
  · rw [if_neg high, if_neg init, if_neg peer, if_pos length]
  rw [if_neg high, if_neg init, if_neg peer, if_neg length]
  by_cases room : evp.malloc (evp.deriveLength (evp.rawPublicKey pub.bytes)).2
  · have fails : (evp.derive (evp.rawPublicKey pub.bytes)).1 ≤ 0 := by
      cases gives with
      | notPubkey fails => exact absurd fails high
      | deriveInit fails => exact absurd fails init
      | setPeer fails => exact absurd fails peer
      | deriveLength fails => exact absurd fails length
      | malloc fails => rw [fails] at room; cases room
      | derive fails => exact fails
    rw [if_neg (not_not.mpr room), if_pos fails]
  · rw [if_pos room]

/-- Off every exit there are a secret and its length. -/
theorem x25519GetSharedKey_of_shared (shared : ¬ GivesUp evp pub) :
    x25519GetSharedKey evp pub = (some (evp.derive (evp.rawPublicKey pub.bytes)).2,
      some (evp.derive (evp.rawPublicKey pub.bytes)).2.length) := by
  have room : evp.malloc (evp.deriveLength (evp.rawPublicKey pub.bytes)).2 = true := by
    by_contra none
    exact shared (.malloc (Bool.eq_false_iff.mpr none))
  rw [x25519GetSharedKey, if_neg (fun high => shared (.notPubkey high)),
    if_neg (fun fails => shared (.deriveInit fails)), if_neg (fun fails => shared (.setPeer fails)),
    if_neg (fun fails => shared (.deriveLength fails)), if_neg (not_not.mpr room),
    if_neg (fun fails => shared (.derive fails))]

/-- A null pointer is pushed as the empty string or not at all. -/
theorem pushLString_null (skeylen : Option Nat) :
    (pushLString none skeylen : Option (Value ν)) = none ∨
      skeylen = some 0 ∧ (pushLString none skeylen : Option (Value ν)) = some (.string []) := by
  match skeylen with
  | none => exact Or.inl rfl
  | some 0 => exact Or.inr ⟨rfl, rfl⟩
  | some (_ + 1) => exact Or.inl rfl

/-- **On an exit** the binding uses what was not set, or passes the empty string off as a secret. -/
theorem luaGetSharedKey_of_givesUp (gives : GivesUp evp pub) :
    luaGetSharedKey num (some evp) pub = .undefined ∨
      luaGetSharedKey num (some evp) pub = .returned [.string [], .number (num.ofInt 0)] := by
  have null := x25519GetSharedKey_of_givesUp gives
  simp only [luaGetSharedKey, null]
  rcases @pushLString_null ν (x25519GetSharedKey evp pub).2 with nothing | ⟨zero, empty⟩
  · exact Or.inl (by rw [nothing])
  · exact Or.inr (by rw [empty, zero]; rfl)

/-- **Off every exit** it returns the secret. -/
theorem luaGetSharedKey_of_shared (lawful : evp.Lawful) (shared : ¬ GivesUp evp pub) :
    ∃ secret : Bytes, secret.length = 32 ∧
      luaGetSharedKey num (some evp) pub = .returned [.string secret, .number (num.ofInt 32)] := by
  have derives : 0 < (evp.derive (evp.rawPublicKey pub.bytes)).1 := by
    by_contra fails
    exact shared (.derive (not_lt.mp fails))
  have size := lawful.derive_length _ derives
  refine ⟨_, size, ?_⟩
  have pushed : (pushLString (some (evp.derive (evp.rawPublicKey pub.bytes)).2)
      (some (evp.derive (evp.rawPublicKey pub.bytes)).2.length) : Option (Value ν)) =
      some (.string (evp.derive (evp.rawPublicKey pub.bytes)).2) := by
    rw [pushLString, if_pos (le_refl _), List.take_length]
  rw [size] at pushed
  simp only [luaGetSharedKey, x25519GetSharedKey_of_shared shared, size, pushed]
  rfl

/-- An exit is never reported. -/
theorem not_reports_of_givesUp (gives : GivesUp evp pub) : ¬ Reports num evp pub := by
  intro reports
  rcases reports.error gives with raised | ⟨rest, returned⟩
  · rcases @luaGetSharedKey_of_givesUp ν num evp pub gives with run | run
    · cases run.symm.trans raised
    · cases run.symm.trans raised
  · rcases @luaGetSharedKey_of_givesUp ν num evp pub gives with run | run
    · cases run.symm.trans returned
    · cases run.symm.trans returned

/-- **The binding reports exactly when there is nothing to report but the secret.** -/
theorem reports_iff (num : Numerals ν) (pub : PeerKey) (lawful : evp.Lawful) :
    Reports num evp pub ↔ ¬ GivesUp evp pub := by
  constructor
  · exact fun reports gives => not_reports_of_givesUp gives reports
  · exact fun shared => ⟨fun _ => luaGetSharedKey_of_shared lawful shared,
      fun gives => absurd gives shared⟩

end Exits

/-- The base point as a peer's key. -/
def basePoint : PeerKey := ⟨9 :: List.replicate 31 0, rfl⟩

/-- The point of order one. -/
def zeroPoint : PeerKey := ⟨List.replicate 32 0, rfl⟩

/-- A well-formed key. -/
theorem reports_iff_basePoint :
    Reports Numerals.integers (EvpDerive.ofPrivateKey (List.replicate 32 1)) basePoint := by
  refine (reports_iff Numerals.integers basePoint (EvpDerive.ofPrivateKey_lawful _)).mpr ?_
  intro gives
  cases gives with
  | notPubkey high => revert high; decide
  | deriveInit fails => revert fails; decide
  | setPeer fails => revert fails; decide
  | deriveLength fails => revert fails; decide
  | malloc fails => revert fails; decide
  | derive fails => revert fails; decide +kernel

/-- **The point of order one** gives up in the last call, and 32 bytes are read behind a null
pointer. -/
theorem zeroPoint_undefined :
    luaGetSharedKey Numerals.integers (some (EvpDerive.ofPrivateKey (List.replicate 32 1)))
        zeroPoint = .undefined ∧
      ¬ Reports Numerals.integers (EvpDerive.ofPrivateKey (List.replicate 32 1)) zeroPoint :=
  ⟨by decide +kernel, not_reports_of_givesUp (.derive (by decide +kernel))⟩

end Bacteria.EncDec
