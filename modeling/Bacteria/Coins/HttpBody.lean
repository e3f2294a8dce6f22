/-
**The body of an HTTP reply.**

`struct string`, `init_string` and `writefunc` of libbacteria/json_rpc.h, and what
`brpc_json_request` of libbacteria/json_rpc.c reads of them.

* `initString`, `writefunc` — the two functions; they end the process when there is no memory.
* `deliver` — curl delivers one chunk; `receive` — all of them.
* `Assembled` — the invariant: the string is the body so far, with a terminator behind it.
* `assembled_initString`, `assembled_writefunc` — one call; `assembled_receive` — every number of them.
* `assembledWithoutLoss` — every sequence of chunks that a `size_t` can count.
* `replyText_of_assembled` — what the parser is given.
-/

import Bacteria.Lib.Block
import Bacteria.Lib.Runs
import Mathlib.Algebra.Order.Ring.Int

namespace Bacteria.Coins

open Clib Runs

/-- `struct string`. -/
structure CurlString where
  ptr : Block
  len : Nat

/-- One call of the callback: `ptr` points to `size * nmemb` bytes. `granted` says whether the `realloc`
in this call has the memory. -/
structure Chunk where
  size : Nat
  nmemb : Nat
  bytes : Bytes
  length : bytes.length = size * nmemb
  granted : Bool

/-- `init_string`, `none` when it ends the process. -/
def initString (granted : Bool) : Option CurlString :=
  if granted then some ⟨(Block.malloc 1).write 0 [0], 0⟩ else none

/-- `writefunc`: the string, and what it returns; `none` when it ends the process. -/
def writefunc (s : CurlString) (chunk : Chunk) : Option (CurlString × Nat) :=
  let count := chunk.size * chunk.nmemb % 2 ^ 64
  let newLen := (s.len + count) % 2 ^ 64
  if ¬ chunk.granted then none
  else
    let ptr := s.ptr.realloc ((newLen + 1) % 2 ^ 64)
    some (⟨(ptr.write s.len (chunk.bytes.take count)).write newLen [0], newLen⟩, count)

/-- curl delivers a chunk, if the process is still there. -/
def deliver (state : Option CurlString) (chunk : Chunk) : Option CurlString :=
  state.bind fun s => (writefunc s chunk).map Prod.fst

/-- The string after these chunks. -/
def receive (granted : Bool) (chunks : List Chunk) : Option CurlString :=
  run deliver (initString granted) chunks

/-- The body that the chunks make up. -/
def body (chunks : List Chunk) : Bytes := chunks.flatMap Chunk.bytes

/-- What `json_loads(s.ptr)` is given. -/
def replyText (s : CurlString) : Option Bytes := s.ptr.cString?

/-- **The string is the body so far.** -/
structure Assembled (s : CurlString) (body : Bytes) : Prop where
  holds : s.ptr.Holds 0 (body ++ [0])
  size : s.ptr.size = body.length + 1
  len : s.len = body.length
  inside : s.ptr.InBounds

/-- A call returns the full size of its chunk. -/
def ReturnsAll (state : Option CurlString) (chunk : Chunk) : Prop :=
  ∀ s after count, state = some s → writefunc s chunk = some (after, count) →
    count = chunk.size * chunk.nmemb

/-- **What the callback is for**: after every part of the chunks the string is the body so far, unless
there was no memory, and every call returns the full size of its chunk. -/
structure AssembledWithoutLoss (granted : Bool) (chunks : List Chunk) : Prop where
  state : ∀ before, before <+: chunks → ∀ s, receive granted before = some s →
    Assembled s (body before)
  alive : ∀ before, before <+: chunks →
    ((receive granted before).isSome ↔ granted = true ∧ ∀ chunk ∈ before, chunk.granted = true)
  returns : EveryStep deliver ReturnsAll (initString granted) chunks

section Calls

variable {s : CurlString} {before : Bytes} {chunk : Chunk}

theorem assembled_initString {granted : Bool} (there : initString granted = some s) :
    Assembled s [] := by
  cases granted with
  | false => cases there
  | true =>
    obtain rfl := Option.some.inj there
    exact ⟨Block.holds_write _ 0 [0], rfl, rfl,
      Block.inBounds_write.mpr ⟨Block.inBounds_malloc 1, le_refl 1⟩⟩

/-- The size of a chunk that a `size_t` can count. -/
theorem count_eq (small : chunk.bytes.length < 2 ^ 64) :
    chunk.size * chunk.nmemb % 2 ^ 64 = chunk.bytes.length := by
  rw [← chunk.length]
  exact Nat.mod_eq_of_lt small

/-- **One call**, when the new length and a terminator can be counted. -/
theorem assembled_writefunc (assembled : Assembled s before)
    (fits : (before ++ chunk.bytes).length + 1 < 2 ^ 64) {after : CurlString} {count : Nat}
    (written : writefunc s chunk = some (after, count)) :
    Assembled after (before ++ chunk.bytes) ∧ count = chunk.size * chunk.nmemb := by
  rw [List.length_append] at fits
  have size := @count_eq chunk (by omega)
  have newLen : (s.len + chunk.bytes.length) % 2 ^ 64 = before.length + chunk.bytes.length := by
    rw [assembled.len]
    exact Nat.mod_eq_of_lt (by omega)
  have newSize : (before.length + chunk.bytes.length + 1) % 2 ^ 64 =
      before.length + chunk.bytes.length + 1 := Nat.mod_eq_of_lt fits
  rw [writefunc, size, newLen, newSize, List.take_length] at written
  by_cases granted : chunk.granted = true
  · rw [if_neg (not_not.mpr granted)] at written
    obtain ⟨rfl, rfl⟩ := Prod.mk.inj (Option.some.inj written)
    have kept : (s.ptr.realloc (before.length + chunk.bytes.length + 1)).Holds 0 before :=
      Block.holds_realloc assembled.holds.left (by omega)
    have copied := kept.write_append assembled.len chunk.bytes
    have behind : before.length + chunk.bytes.length = (before ++ chunk.bytes).length :=
      List.length_append.symm
    refine ⟨⟨copied.write_append behind [0], ?_, behind, ?_⟩, chunk.length⟩
    · rw [Block.write_size, Block.write_size, Block.realloc_size, behind]
    · rw [Block.inBounds_write, Block.inBounds_write, Block.inBounds_realloc, Block.write_size,
        Block.realloc_size, List.length_singleton, assembled.len]
      exact ⟨⟨assembled.inside, Nat.le_succ _⟩, le_refl _⟩
  · rw [if_pos granted] at written
    cases written

/-- A call leaves no string exactly when it has no memory. -/
theorem deliver_isSome_iff (state : Option CurlString) (chunk : Chunk) :
    (deliver state chunk).isSome ↔ state.isSome ∧ chunk.granted = true := by
  cases state with
  | none => exact iff_of_false Bool.false_ne_true fun both => Bool.false_ne_true both.1
  | some s =>
    rw [deliver, Option.bind_some, writefunc]
    by_cases granted : chunk.granted = true
    · rw [if_neg (not_not.mpr granted)]
      exact iff_of_true rfl ⟨rfl, granted⟩
    · rw [if_pos granted]
      exact iff_of_false Bool.false_ne_true fun both => granted both.2

end Calls

section Receiving

variable {granted : Bool} {chunks : List Chunk}

theorem body_append (first second : List Chunk) : body (first ++ second) = body first ++ body second :=
  List.flatMap_append

theorem body_singleton (chunk : Chunk) : body [chunk] = chunk.bytes := List.flatMap_singleton ..

/-- **Every number of calls.** -/
theorem assembled_receive (fits : (body chunks).length + 1 < 2 ^ 64) {s : CurlString}
    (there : receive granted chunks = some s) : Assembled s (body chunks) := by
  refine run_history deliver (fun history state => (body history).length + 1 < 2 ^ 64 →
    ∀ s, state = some s → Assembled s (body history)) ?_ ?_ chunks fits s there
  · exact fun _ s there => assembled_initString there
  · intro history state chunk assembled small after delivered
    rw [body_append, body_singleton] at small ⊢
    obtain ⟨s, there, written⟩ := Option.bind_eq_some_iff.mp delivered
    obtain ⟨⟨_, count⟩, call, rfl⟩ := Option.map_eq_some_iff.mp written
    have shorter : (body history).length + 1 < 2 ^ 64 := by
      rw [List.length_append] at small
      omega
    exact (assembled_writefunc (assembled shorter s there) small call).1

/-- The process ends exactly for want of memory. -/
theorem receive_isSome_iff (granted : Bool) (chunks : List Chunk) :
    (receive granted chunks).isSome ↔ granted = true ∧ ∀ chunk ∈ chunks, chunk.granted = true := by
  induction chunks using List.reverseRecOn with
  | nil =>
    cases granted with
    | true => exact iff_of_true rfl ⟨rfl, fun _ member => absurd member List.not_mem_nil⟩
    | false => exact iff_of_false Bool.false_ne_true fun both => Bool.false_ne_true both.1
  | append_singleton chunks chunk ih =>
    rw [receive, run_append, run_cons, run_nil, deliver_isSome_iff, ← receive, ih, and_assoc,
      List.forall_mem_append, List.forall_mem_singleton]

/-- A part of the chunks makes up a part of the body. -/
theorem body_length_le {before : List Chunk} (part : before <+: chunks) :
    (body before).length ≤ (body chunks).length := by
  obtain ⟨after, rfl⟩ := part
  rw [body_append, List.length_append]
  exact Nat.le_add_right _ _

/-- **The body is assembled without loss**, however it is cut into chunks, as long as its length and one
more is a `size_t`. -/
theorem assembledWithoutLoss (granted : Bool) (chunks : List Chunk)
    (fits : (body chunks).length + 1 ≤ 2 ^ 64 - 1) : AssembledWithoutLoss granted chunks where
  state before part s there := by
    have shorter := body_length_le part
    exact assembled_receive (by omega) there
  alive before _ := receive_isSome_iff granted before
  returns := by
    rw [everyStep_iff_split]
    rintro before chunk after rfl s next count there written
    have shorter := @body_length_le (before ++ chunk :: after) (before ++ [chunk])
      ⟨after, by rw [List.append_assoc, List.singleton_append]⟩
    rw [body_append, body_singleton] at shorter
    have shortest : (body before).length + 1 < 2 ^ 64 := by
      rw [List.length_append] at shorter
      omega
    have small : (body before ++ chunk.bytes).length + 1 < 2 ^ 64 := by omega
    exact (assembled_writefunc (assembled_receive shortest there) small written).2

/-- Two chunks, and an empty one between them. -/
theorem assembledWithoutLoss_three :
    AssembledWithoutLoss true [⟨1, 2, [123, 34], rfl, true⟩, ⟨1, 0, [], rfl, true⟩,
      ⟨1, 1, [125], rfl, true⟩] :=
  assembledWithoutLoss true _ (show 3 + 1 ≤ 2 ^ 64 - 1 by omega)

/-- **The parser is given the body**, up to its first NUL. -/
theorem replyText_of_assembled {s : CurlString} {whole : Bytes} (assembled : Assembled s whole) :
    replyText s = some (cstr whole).bytes := by
  obtain ⟨rest, shape⟩ := cstr_terminated whole
  have holds := assembled.holds
  rw [shape, List.append_cons] at holds
  refine Block.cString?_of_holds (cstr whole).noNul holds.left ?_
  rw [assembled.size]
  exact Nat.lt_succ_of_le (cstr_length_le whole)

end Receiving

end Bacteria.Coins
