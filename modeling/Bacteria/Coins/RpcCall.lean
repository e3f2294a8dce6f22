/-
**A JSON-RPC call from Lua.**

`bacteria.doRPCRequest` of src/luasubmodules/bacteria.lua, through `lua_rpc_requst` of
libbacteria/lua/libjson.c: a table with the method and the parameters is encoded, posted as a C string,
and what the node sends back is decoded.

* `invalidField` — the checks of the coin's table, in their order.
* `requestEntries` — the table that is encoded; nil leaves no entry.
* `rpcRequest`, `doRPCRequest` — the two functions; `Curl` — what curl and the node do.
* `encodable_request`, `whole_request` — the table has a text if the method and the parameters have one.
* `rpcRequest_text` — the node is posted the whole text, since it has no NUL; the reply is cut at its first.
* `doRPCRequest_exchange` — the node is sent a deep copy of the request, and the call returns exactly the
  value that the reply denotes.
-/

import Bacteria.Coins.HttpBody
import Bacteria.Json.Accept
import Bacteria.Json.Copy

namespace Bacteria.Coins

open Clib EncDec Json Loops Lua Relation

/-- What curl does: whether there is a handle, whether `init_string` has its memory, and the reply to a
body. -/
structure Curl where
  handle : Bool
  granted : Bool
  reply : Bytes → List Chunk

/-- How a call ends. -/
inductive RpcResult (ν : Type) where
  | returned (value : Json.Tree ν)
  | encodeError (error : EncodeError ν)
  | rpcError (msg : Bytes)
  | decodeError (error : DecodeError)
  /-- `exit(EXIT_FAILURE)` for want of memory. -/
  | exited
  | unfinished

section Calls

variable {ν : Type} [DecidableEq ν] (num : Numerals ν) (finite : ν → Bool)
  (objectType : Nat → Bytes) (heap : Heap ν)

/-- The checks of `lua_rpc_requst` on the table of a coin: the message of the first one that fails. -/
def invalidField (coin : Bytes → Value ν) : Option Bytes :=
  if ((coin (ascii "port")).toNumber num).isNone then some (ascii "invalid rpcport")
  else if coin (ascii "istestnet") ≠ .boolean true ∧ coin (ascii "istestnet") ≠ .boolean false then
    some (ascii "invalid istestnet")
  else
    (([ascii "host", ascii "user", ascii "password", ascii "name"].find? fun what =>
      ((coin what).toLString num).isNone).map fun what => ascii "invalid " ++ what)

/-- `lua_rpc_requst`, of a string: what it returns. Without a handle that is its own argument, the table of
the coin. -/
def rpcRequest (coin : Option (Bytes → Value ν)) (coinTable : Value ν) (data : Bytes) (curl : Curl) :
    Except (RpcResult ν) (Value ν) :=
  match coin with
  | none => .error (.rpcError (ascii "`table` error"))
  | some coin =>
    match invalidField num coin with
    | some msg => .error (.rpcError msg)
    | none =>
      if curl.handle then
        match (receive curl.granted (curl.reply (cstr data).bytes)).bind replyText with
        | none => .error .exited
        | some text => .ok (.string text)
      else .ok coinTable

/-- The entries of the table that is encoded. -/
def requestEntries (method params : Value ν) : List (Entry ν) :=
  [(.string (ascii "jsonrpc"), .number (num.ofInt 1)), (.string (ascii "id"), .string (ascii "luatest")),
    (.string (ascii "method"), method), (.string (ascii "params"), params)].filter (·.2 ≠ .nil)

/-- `bacteria.doRPCRequest`, for the table `request`. -/
def doRPCRequest (fuel : Nat) (coin : Option (Bytes → Value ν)) (coinTable : Value ν) (curl : Curl)
    (request : Value ν) : RpcResult ν :=
  match encode num finite objectType heap fuel [] request with
  | .unfinished => .unfinished
  | .raised error => .encodeError error
  | .returned d =>
    match rpcRequest num coin coinTable d curl with
    | .error result => result
    | .ok r =>
      match decode num objectType fuel r with
      | .returned value => .returned value
      | .raised error => .decodeError error
      | .unfinished => .unfinished

end Calls

/-! ### The request -/

section Request

variable {ν : Type} [DecidableEq ν] {num : Numerals ν} {finite : ν → Bool}
  {objectType : Nat → Bytes} {heap : Heap ν} {identity : Nat} {entries : List (Entry ν)}
  {method params : Value ν}

/-- **The table of a request**: a new one, in any order. -/
def IsRequest (num : Numerals ν) (heap : Heap ν) (method params : Value ν) (identity : Nat) : Prop :=
  ∃ entries, heap.tables identity = some entries ∧ entries.Perm (requestEntries num method params)

theorem mem_requestEntries {entry : Entry ν} (member : entry ∈ requestEntries num method params) :
    isString entry.1 = true ∧ (entry.2 = .number (num.ofInt 1) ∨ entry.2 = .string (ascii "luatest") ∨
      entry.2 = method ∨ entry.2 = params) := by
  have inside := (List.mem_filter.mp member).1
  simp only [List.mem_cons, List.not_mem_nil, or_false] at inside
  rcases inside with rfl | rfl | rfl | rfl
  · exact ⟨rfl, Or.inl rfl⟩
  · exact ⟨rfl, Or.inr (Or.inl rfl)⟩
  · exact ⟨rfl, Or.inr (Or.inr (Or.inl rfl))⟩
  · exact ⟨rfl, Or.inr (Or.inr (Or.inr rfl))⟩

/-- It is taken for an object. -/
theorem takenForArray_request (perm : entries.Perm (requestEntries num method params)) :
    takenForArray num entries = false := by
  have noIndex : field entries (.number (num.ofInt 1)) = .nil := by
    refine field_of_notMem fun isKey => ?_
    obtain ⟨entry, member, same⟩ := List.mem_map.mp isKey
    have key := (mem_requestEntries (perm.subset member)).1
    rw [same] at key
    cases key
  have first : (.string (ascii "jsonrpc"), .number (num.ofInt 1)) ∈ entries := by
    refine perm.symm.subset (List.mem_filter.mpr ⟨List.mem_cons_self, ?_⟩)
    exact decide_eq_true fun same => by cases same
  have filled : entries.isEmpty = false := by
    cases entries with
    | nil => cases first
    | cons _ _ => rfl
  rw [takenForArray, noIndex, filled]
  rfl

/-- The values of a request. -/
theorem mem_children_request (perm : entries.Perm (requestEntries num method params)) {w : Value ν}
    (member : w ∈ children num entries) : w = .number (num.ofInt 1) ∨ w = .string (ascii "luatest") ∨
      w = method ∨ w = params := by
  rw [children, if_neg (ne_true_of_eq_false (takenForArray_request perm))] at member
  obtain ⟨entry, inside, rfl⟩ := List.mem_map.mp member
  exact (mem_requestEntries (perm.subset inside)).2

/-- **It has a text** if the method and the parameters have one. -/
theorem encodable_request (one : finite (num.ofInt 1) = true)
    (request : IsRequest num heap method params identity)
    (methodRight : Json.Encodable num finite heap method)
    (paramsRight : Json.Encodable num finite heap params) :
    Json.Encodable num finite heap (.object identity) := by
  obtain ⟨entries, known, perm⟩ := request
  refine .table identity entries known ?_ fun w member => ?_
  · rw [KeysInOrder, if_neg (ne_true_of_eq_false (takenForArray_request perm))]
    exact fun entry member => (mem_requestEntries (perm.subset member)).1
  · rcases mem_children_request perm member with rfl | rfl | rfl | rfl
    · exact .number _ one
    · exact .string _
    · exact methodRight
    · exact paramsRight

/-- **It has no hole** if they have none. -/
theorem whole_request (request : IsRequest num heap method params identity)
    (methodWhole : Whole num heap method) (paramsWhole : Whole num heap params) :
    Whole num heap (.object identity) := by
  obtain ⟨entries, known, perm⟩ := request
  refine (whole_object_iff known).mpr ⟨fun array => ?_, fun w member => ?_⟩
  · rw [takenForArray_request perm] at array
    cases array
  · rcases mem_children_request perm member with rfl | rfl | rfl | rfl
    · exact whole_of_not_object fun _ same => by cases same
    · exact whole_of_not_object fun _ same => by cases same
    · exact methodWhole
    · exact paramsWhole

end Request

/-! ### The exchange -/

section Exchange

variable {ν : Type} [DecidableEq ν] {num : Numerals ν} {finite : ν → Bool}
  {objectType : Nat → Bytes} {heap : Heap ν} {method params coinTable : Value ν}
  {coin : Bytes → Value ν} {curl : Curl} {identity fuel : Nat} {text : Bytes}

/-- There is a handle, the memory for every reply, and no reply is too long. -/
structure Curl.Works (curl : Curl) : Prop where
  handle : curl.handle = true
  granted : curl.granted = true
  chunks : ∀ posted, ∀ chunk ∈ curl.reply posted, chunk.granted = true
  fits : ∀ posted, (body (curl.reply posted)).length + 1 < 2 ^ 64

/-- **The node is posted the whole text**, and what it sends comes back up to its first NUL. -/
theorem rpcRequest_text (complete : invalidField num coin = none) (works : curl.Works)
    (noNul : (0 : Byte) ∉ text) :
    rpcRequest num (some coin) coinTable text curl =
      .ok (.string (cstr (body (curl.reply text))).bytes) := by
  have whole : (cstr text).bytes = text := (cstr_eq_iff text).mpr noNul
  obtain ⟨s, there⟩ := Option.isSome_iff_exists.mp ((receive_isSome_iff curl.granted (curl.reply text)).mpr
    ⟨works.granted, works.chunks text⟩)
  have assembled := assembled_receive (works.fits text) there
  simp only [rpcRequest, complete, works.handle, if_true, whole, there, Option.bind_some,
    replyText_of_assembled assembled]

/-- **The exchange**: the node is posted a text that denotes a deep copy of the request, and the call
returns exactly the value that the reply denotes. -/
theorem doRPCRequest_exchange (laws : NumberLaws num finite) (one : finite (num.ofInt 1) = true)
    (request : IsRequest num heap method params identity)
    (methodRight : Json.Encodable num finite heap method ∧ Whole num heap method)
    (paramsRight : Json.Encodable num finite heap params ∧ Whole num heap params)
    (complete : invalidField num coin = none) (works : curl.Works)
    (enough : heap.identities.length < fuel)
    (longEnough : ∀ posted, 2 * (body (curl.reply posted)).length + 1 ≤ fuel) :
    ∃ text copy, Denotes num text copy ∧ Copies num heap (.object identity) copy ∧
      ∀ value, doRPCRequest num finite objectType heap fuel (some coin) coinTable curl (.object identity) =
        .returned value ↔ Denotes num (cstr (body (curl.reply text))).bytes value := by
  have encodable := encodable_request one request methodRight.1 paramsRight.1
  have whole := whole_request request methodRight.2 paramsRight.2
  obtain ⟨text, returned⟩ := @exists_text _ _ num finite objectType heap _ _ enough encodable
  obtain ⟨doc, written, copies⟩ := encode_denotes laws returned
  have noNul : (0 : Byte) ∉ text := fun member =>
    absurd (encode_printable laws returned 0 member) (by decide)
  refine ⟨text, doc.value, ⟨noBlank, doc, noBlank, ?_, rfl⟩, copies.mpr whole, fun value => ?_⟩
  · rw [written]
    exact (List.append_nil text).symm
  · have long : 2 * (cstr (body (curl.reply text))).bytes.length + 1 ≤ fuel := by
      have shorter := cstr_length_le (body (curl.reply text))
      have enoughHere := longEnough text
      omega
    simp only [doRPCRequest, returned, rpcRequest_text complete works noNul, decode]
    rw [← decodeText_returned_iff num _ long]
    cases decodeText num fuel (cstr (body (curl.reply text))).bytes with
    | returned read => rw [RpcResult.returned.injEq, Attempt.returned.injEq]
    | _ => exact iff_of_false (fun same => by cases same) (fun same => by cases same)

end Exchange

/-! ### `getbalance` -/

/-- `{jsonrpc = 1.0, id = "luatest", method = "getbalance", params = {}}`. -/
def balanceHeap : Heap Int where
  tables
    | 0 => some (requestEntries signedIntegers (.string (ascii "getbalance")) (.object 1))
    | 1 => some []
    | _ => none
  identities := [0, 1]
  known
    | 0, _ => by decide
    | 1, _ => by decide
    | _ + 2, there => by cases there
  distinct
    | 0, _, rfl => by decide
    | 1, _, rfl => by decide
  short
    | 0, _, rfl => by decide
    | 1, _, rfl => by decide
  noNil
    | 0, _, rfl => by decide
    | 1, _, rfl => by decide
  len _ := 0

/-- The table of a coin. -/
def sampleCoin : Bytes → Value Int := fun what =>
  if what = ascii "port" then .number 8332
  else if what = ascii "istestnet" then .boolean false
  else .string (ascii "x")

/-- A node that answers every request with `{"result":5}`, in one chunk. -/
def fiveCurl : Curl where
  handle := true
  granted := true
  reply _ := [⟨1, 12, ascii "\x7b\"result\":5\x7d", rfl, true⟩]

theorem fiveCurl_works : fiveCurl.Works where
  handle := rfl
  granted := rfl
  chunks _ chunk member := by rw [List.mem_singleton.mp member]
  fits _ := by
    rw [show (body (fiveCurl.reply _)).length = 12 from rfl]
    decide

theorem doRPCRequest_balance :
    ∃ text copy, Denotes signedIntegers text copy ∧ Copies signedIntegers balanceHeap (.object 0) copy ∧
      ∀ value, doRPCRequest signedIntegers (fun _ => true) (fun _ => []) balanceHeap 30 (some sampleCoin)
        .nil fiveCurl (.object 0) = .returned value ↔
          Denotes signedIntegers (cstr (body (fiveCurl.reply text))).bytes value := by
  have params : Json.Encodable signedIntegers (fun _ => true) balanceHeap (.object 1) :=
    .table 1 [] rfl ⟨(fun entry member => by cases member), rfl⟩ fun w member => by cases member
  have noHole : Whole signedIntegers balanceHeap (.object 1) :=
    (whole_object_iff rfl).mpr ⟨(fun _ key member => by cases member), fun w member => by cases member⟩
  exact doRPCRequest_exchange signedIntegers_laws rfl ⟨_, rfl, .refl _⟩
    ⟨.string _, whole_of_not_object fun _ same => by cases same⟩ ⟨params, noHole⟩ (by decide)
    fiveCurl_works (by decide) fun _ => by
      rw [show (body (fiveCurl.reply _)).length = 12 from rfl]
      decide

end Bacteria.Coins
