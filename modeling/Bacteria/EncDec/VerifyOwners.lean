/-
**Who frees the keys of the class `basic_verify`.**

* `claims` — how often a pointer was freed, or is held by an object that frees it later.
* `claims_step`, `log_step` — what a call claims, and what it logs.
* `Released`, `Call.Keeps` — every block is freed once, and not read afterwards; the calls for it.
* `released_iff` — every run at whose end all objects are destroyed.
-/

import Bacteria.EncDec.VerifyClass
import Bacteria.Lib.Runs

namespace Bacteria.EncDec.BasicVerify

open AllocLog Owners Runs

/-! ### What a call claims -/

/-- How often a pointer was freed or is still held. -/
def claims (w : World) (pointer : Pointer) : Nat :=
  Owners.claims (fun object : Object => object.mKeyPair.freed) w.objects w.log pointer

/-- The pointers that a call claims. -/
def claimed (w : World) : Call → List Pointer
  | .constructFromFile type file =>
    (Creation.initPrivKey type file).made.claimed w.blocks
      (decide ((Creation.initPrivKey type file).made.mKeyPair.pkey ≠ .null))
  | .constructGenerating type how =>
    KeyPointers.unset.freed ++
      if how.opens then (Creation.generate type how.keygen).made.claimed w.blocks true else []
  | .generateKeys n how =>
    match w.object n with
    | none => []
    | some old =>
      if how.opens then (Creation.generate old.mType how.keygen).made.claimed w.blocks true
      else old.mKeyPair.freed
  | .assign _ b => (w.object b).elim [] fun other => other.mKeyPair.freed
  | _ => []

/-- The objects of a call. -/
def Call.objects : Call → List Nat
  | constructFromFile _ _ => []
  | constructGenerating _ _ => []
  | generateKeys n _ => [n]
  | assign n b => [n, b]
  | destroy n => [n]
  | sign n => [n]
  | verify n => [n]
  | getPubKey n => [n]
  | getPrivKey n => [n]

/-- They are live. -/
def Valid (w : World) (call : Call) : Prop := ∀ n ∈ call.objects, (w.object n).isSome = true

instance (w : World) (call : Call) : Decidable (Valid w call) :=
  inferInstanceAs (Decidable (∀ n ∈ call.objects, (w.object n).isSome = true))

section Claims

variable {w : World} {call : Call} {n b : Nat} {pointer : Pointer} {object : Object}

theorem object_eq_some : w.object n = some object ↔ w.objects[n]? = some (some object) :=
  Option.join_eq_some_iff

/-! ### One call -/

theorem claims_freeMKey_set (there : w.object n = some object) (next : Option Object) :
    claims (((freeMKey object.mKeyPair).run w).2.set n next) pointer =
      claims w pointer + held (fun object : Object => object.mKeyPair.freed) next pointer :=
  claims_set (object_eq_some.mp there) next

theorem claims_freeMKey (w : World) (mKeyPair : KeyPointers) :
    claims ((freeMKey mKeyPair).run w).2 pointer = claims w pointer + mKeyPair.freed.count pointer :=
  claims_freeing _

theorem claims_add (w : World) (object : Object) :
    claims (w.add object) pointer = claims w pointer + object.mKeyPair.freed.count pointer :=
  claims_append _

theorem frees_log (made : Made) (first : Nat) :
    frees (made.log first) pointer = (made.freed.map (Pointer.shift first)).count pointer := by
  rw [Made.log, frees_append, frees_freeing]
  cases made.usesUnset with
  | true =>
    rw [if_pos rfl, frees_read, Nat.add_zero]
  | false => rfl

theorem claims_make (w : World) (made : Made) :
    claims (w.make made) pointer = claims w pointer + (made.claimed w.blocks false).count pointer := by
  rw [claims, claims, Owners.claims, Owners.claims, World.make, frees_append, frees_log, Made.claimed,
    Made.pointers, if_neg Bool.false_ne_true, List.append_nil]
  exact Nat.add_right_comm _ _ _

/-- A function makes a pair, which an object keeps. -/
theorem count_claimed_kept (made : Made) (first : Nat) :
    (made.claimed first true).count pointer =
      (made.claimed first false).count pointer + (made.mKeyPair.shift first).freed.count pointer := by
  rw [freed_shift, Made.claimed, Made.claimed, Made.pointers, Made.pointers, if_pos rfl,
    if_neg Bool.false_ne_true, List.append_nil, List.map_append, List.count_append]

theorem claims_make_add (w : World) (made : Made) (mType : ATypes) :
    claims ((w.make made).add ⟨made.mKeyPair.shift w.blocks, mType⟩) pointer =
      claims w pointer + (made.claimed w.blocks true).count pointer := by
  rw [claims_add, claims_make, count_claimed_kept, Nat.add_assoc]

/-- A read is logged, if there is something to read. -/
theorem read_cases (w : World) (n : Nat) (member : KeyPointers → Pointer) :
    w.read n member = w ∨ ∃ place, w.read n member = { w with log := w.log ++ [.read place] } := by
  rw [World.read]
  split
  · exact Or.inl rfl
  · split
    · exact Or.inl rfl
    · exact Or.inr ⟨_, rfl⟩

theorem claims_readMember (w : World) (n : Nat) (member : KeyPointers → Pointer) :
    claims (w.read n member) pointer = claims w pointer := by
  rcases read_cases w n member with same | ⟨place, same⟩ <;> rw [same]
  exact claims_read place

/-- **What a call does to the claims.** -/
theorem claims_step (valid : Valid w call) :
    claims (step w call) pointer = claims w pointer + (claimed w call).count pointer := by
  cases call with
  | constructFromFile type file =>
    rw [step_constructFromFile, claimed]
    split
    · next null => rw [claims_make, decide_eq_false (not_not.mpr null)]
    · next set => rw [claims_make_add, decide_eq_true set]
  | constructGenerating type how =>
    rw [step_constructGenerating, claimed, List.count_append, ← Nat.add_assoc, ← claims_freeMKey]
    cases how.opens with
    | true => exact claims_make_add _ _ _
    | false => rfl
  | generateKeys n how =>
    obtain ⟨old, there⟩ := Option.isSome_iff_exists.mp (valid n (List.mem_singleton_self n))
    rw [step_generateKeys there]
    simp only [claimed, there]
    generalize (Creation.generate old.mType how.keygen).made = made
    cases how.opens with
    | true =>
      let new : Object := ⟨made.mKeyPair.shift w.blocks, old.mType⟩
      calc claims ((((freeMKey old.mKeyPair).run w).2.set n (some new)).make made) pointer
          = claims w pointer + (made.mKeyPair.shift w.blocks).freed.count pointer +
              (made.claimed w.blocks false).count pointer := by
            rw [claims_make, claims_freeMKey_set there]
            rfl
        _ = claims w pointer + (made.claimed w.blocks true).count pointer := by
            rw [count_claimed_kept, Nat.add_assoc, Nat.add_comm (List.count _ _)]
    | false => exact claims_freeMKey w old.mKeyPair
  | assign n b =>
    obtain ⟨old, there⟩ := Option.isSome_iff_exists.mp (valid n (by simp [Call.objects]))
    obtain ⟨other, otherThere⟩ := Option.isSome_iff_exists.mp (valid b (by simp [Call.objects]))
    simp only [step, claimed, there, otherThere, Option.elim_some]
    exact claims_freeMKey_set there (some other)
  | destroy n =>
    obtain ⟨old, there⟩ := Option.isSome_iff_exists.mp (valid n (List.mem_singleton_self n))
    simp only [step, claimed, there]
    exact claims_freeMKey_set there none
  | sign n => exact claims_readMember w n _
  | verify n => rfl
  | getPubKey n => exact claims_readMember w n _
  | getPrivKey n => exact claims_readMember w n _

/-- How many blocks a call allocates. -/
def allocates (w : World) : Call → Nat
  | .constructFromFile type file => (Creation.initPrivKey type file).made.size
  | .constructGenerating type how =>
    if how.opens then (Creation.generate type how.keygen).made.size else 0
  | .generateKeys n how =>
    match w.object n with
    | none => 0
    | some old => if how.opens then (Creation.generate old.mType how.keygen).made.size else 0
  | _ => 0

theorem blocks_read (w : World) (n : Nat) (member : KeyPointers → Pointer) :
    (w.read n member).blocks = w.blocks := by
  rcases read_cases w n member with same | ⟨_, same⟩ <;> rw [same]

theorem blocks_step (w : World) (call : Call) : (step w call).blocks = w.blocks + allocates w call := by
  cases call with
  | constructFromFile type file =>
    rw [step_constructFromFile]
    split <;> rfl
  | constructGenerating type how =>
    rw [step_constructGenerating, allocates]
    split <;> rfl
  | generateKeys n how =>
    cases there : w.object n with
    | none => simp only [step, allocates, there, Nat.add_zero]
    | some old =>
      rw [step_generateKeys there]
      simp only [allocates, there]
      split <;> rfl
  | assign n b =>
    rw [step]
    split <;> rfl
  | destroy n =>
    rw [step]
    split <;> rfl
  | sign n => exact blocks_read w n _
  | verify n => rfl
  | getPubKey n => exact blocks_read w n _
  | getPrivKey n => exact blocks_read w n _

/-! ### What is held -/

/-- **What all runs keep**: blocks that are not yet allocated are not claimed, and every object has a
buffer for its private key. -/
structure Formed (w : World) : Prop where
  fresh : ∀ block, w.blocks ≤ block → claims w (.block block) = 0
  privKey : ∀ object, some object ∈ w.objects → object.mKeyPair.privKey ≠ .null

theorem privKey_freed {mKeyPair : KeyPointers} (set : mKeyPair.privKey ≠ .null) :
    mKeyPair.privKey ∈ mKeyPair.freed :=
  List.mem_filter.mpr ⟨by simp, decide_eq_true set⟩

/-- What an object holds is claimed. -/
theorem claims_pos (there : w.object n = some object) (holds : pointer ∈ object.mKeyPair.freed) :
    0 < claims w pointer := by
  have atLeast := @held_le_holders _ _ _ (fun object : Object => object.mKeyPair.freed) w.objects
    pointer n _ (object_eq_some.mp there)
  have counted : 0 < held (fun object : Object => object.mKeyPair.freed) (some object) pointer :=
    List.count_pos_iff.mpr holds
  rw [claims, Owners.claims]
  omega

/-- **A call claims blocks that an object holds**, or those that it allocates. -/
theorem claimed_cases (holds : pointer ∈ claimed w call) :
    0 < claims w pointer ∨ pointer = .indeterminate ∨
      ∃ block, w.blocks ≤ block ∧ block < w.blocks + allocates w call ∧ pointer = .block block := by
  cases call with
  | constructFromFile type file => exact Or.inr (mem_claimed holds)
  | constructGenerating type how =>
    rcases List.mem_append.mp holds with unset | new
    · have same : pointer = .indeterminate := by
        simpa [KeyPointers.freed, KeyPointers.unset] using unset
      exact Or.inr (Or.inl same)
    · rw [allocates]
      cases opens : how.opens with
      | true =>
        rw [opens] at new
        exact Or.inr (mem_claimed new)
      | false =>
        rw [opens] at new
        cases new
  | generateKeys n how =>
    cases there : w.object n with
    | none =>
      simp only [claimed, there] at holds
      cases holds
    | some old =>
      simp only [claimed, there] at holds
      simp only [allocates, there]
      cases opens : how.opens with
      | true =>
        rw [opens] at holds
        exact Or.inr (mem_claimed holds)
      | false =>
        rw [opens] at holds
        exact Or.inl (claims_pos there holds)
  | assign n b =>
    cases there : w.object b with
    | none =>
      rw [claimed, there] at holds
      cases holds
    | some other =>
      rw [claimed, there] at holds
      exact Or.inl (claims_pos there holds)
  | _ => cases holds

end Claims

/-! ### Keys that are freed once -/

/-- Every block is freed once or still held, and what nothing has set is not held, freed or used. -/
structure Fair (w : World) : Prop where
  determinate : claims w .indeterminate = 0
  once : ∀ block < w.blocks, claims w (.block block) = 1
  unused : .read .indeterminate ∉ w.log

/-- A key length is compared that nothing has set. -/
def Call.usesUnset : Call → Bool
  | constructFromFile type file => (Creation.initPrivKey type file).made.usesUnset
  | _ => false

/-- The call claims what it allocates, and nothing else. -/
structure ClaimsNew (w : World) (call : Call) : Prop where
  determinate : .indeterminate ∉ claimed w call
  blocks : ∀ block < (step w call).blocks,
    (claimed w call).count (.block block) = if block < w.blocks then 0 else 1
  unused : call.usesUnset = false

/-- **The calls after which the keys are still freed once.** -/
def Call.Keeps : Call → Prop
  | constructFromFile type file => type = .ed25519 ∧ file = .holds .raw
  | constructGenerating _ _ => False
  | generateKeys _ how => how.opens = true
  | assign _ _ => False
  | _ => True

instance : DecidablePred Call.Keeps
  | .constructFromFile type file => inferInstanceAs (Decidable (type = .ed25519 ∧ file = .holds .raw))
  | .constructGenerating _ _ => inferInstanceAs (Decidable False)
  | .generateKeys _ how => inferInstanceAs (Decidable (how.opens = true))
  | .assign _ _ => inferInstanceAs (Decidable False)
  | .destroy _ => inferInstanceAs (Decidable True)
  | .sign _ => inferInstanceAs (Decidable True)
  | .verify _ => inferInstanceAs (Decidable True)
  | .getPubKey _ => inferInstanceAs (Decidable True)
  | .getPrivKey _ => inferInstanceAs (Decidable True)

section Keeping

variable {w : World} {call : Call} {n : Nat} {pointer : Pointer} {object : Object} {made : Made}

/-- All that is logged between two states is what was freed. -/
def OnlyFrees (w later : World) : Prop := ∃ freed, later.log = w.log ++ freeing freed

/-- What an object holds was read. -/
def ReadsHeld (w later : World) : Prop :=
  ∃ n object pointer, w.object n = some object ∧ pointer ∈ object.mKeyPair.freed ∧
    later.log = w.log ++ [.read pointer]

theorem onlyFrees_freeMKey (w : World) (mKeyPair : KeyPointers) :
    OnlyFrees w ((freeMKey mKeyPair).run w).2 := ⟨mKeyPair.freed, rfl⟩

theorem onlyFrees_of_same {later : World} (same : later.log = w.log) : OnlyFrees w later :=
  ⟨[], same.trans (List.append_nil _).symm⟩

theorem onlyFrees_make (unused : made.usesUnset = false) (w : World) : OnlyFrees w (w.make made) := by
  refine ⟨made.freed.map (Pointer.shift w.blocks), ?_⟩
  rw [World.make, Made.log, unused, if_neg Bool.false_ne_true, List.append_nil]

theorem OnlyFrees.trans {first second third : World} (before : OnlyFrees first second)
    (behind : OnlyFrees second third) : OnlyFrees first third := by
  obtain ⟨freed, log⟩ := before
  obtain ⟨more, later⟩ := behind
  refine ⟨freed ++ more, ?_⟩
  rw [later, log, freeing, freeing, freeing, List.map_append, List.append_assoc]

/-- Both functions that generate a key only free what they free. -/
theorem onlyFrees_generate (w : World) (mKeyPair : KeyPointers) (mType : ATypes) (keygen : Keygen) :
    OnlyFrees w (((freeMKey mKeyPair).run w).2.make (Creation.generate mType keygen).made) :=
  (onlyFrees_freeMKey w mKeyPair).trans (onlyFrees_make (generate_usesUnset mType keygen) _)

/-- What a method reads is held by an object. -/
theorem log_read (w : World) (n : Nat) {member : KeyPointers → Pointer}
    (isMember : ∀ mKeyPair : KeyPointers,
      member mKeyPair ∈ [mKeyPair.pkey, mKeyPair.privKey, mKeyPair.pubKey]) :
    OnlyFrees w (w.read n member) ∨ ReadsHeld w (w.read n member) := by
  cases there : w.object n with
  | none => exact Or.inl (onlyFrees_of_same (by simp only [World.read, there]))
  | some object =>
    by_cases null : member object.mKeyPair = .null
    · exact Or.inl (onlyFrees_of_same (by simp only [World.read, there, null, if_true]))
    · refine Or.inr ⟨n, object, member object.mKeyPair, there, ?_, ?_⟩
      · exact List.mem_filter.mpr ⟨isMember object.mKeyPair, decide_eq_true null⟩
      · simp only [World.read, there, null, if_false]

/-- **What a call logs**, if it uses nothing that is not set: it frees something, or it reads what an
object holds. -/
theorem log_step (unused : call.usesUnset = false) :
    OnlyFrees w (step w call) ∨ ReadsHeld w (step w call) := by
  cases call with
  | constructFromFile type file =>
    obtain ⟨freed, log⟩ := @onlyFrees_make (Creation.initPrivKey type file).made unused w
    rw [step_constructFromFile]
    split <;> exact Or.inl ⟨freed, log⟩
  | constructGenerating type how =>
    rw [step_constructGenerating]
    cases how.opens with
    | true => exact Or.inl (onlyFrees_generate w .unset type how.keygen)
    | false => exact Or.inl (onlyFrees_freeMKey w .unset)
  | generateKeys n how =>
    cases there : w.object n with
    | none => exact Or.inl (onlyFrees_of_same (by simp only [step, there]))
    | some old =>
      rw [step_generateKeys there]
      cases how.opens with
      | true => exact Or.inl (onlyFrees_generate w old.mKeyPair old.mType how.keygen)
      | false => exact Or.inl (onlyFrees_freeMKey w old.mKeyPair)
  | assign n b =>
    rw [step]
    split
    · next old _ _ _ => exact Or.inl (onlyFrees_freeMKey w old.mKeyPair)
    · exact Or.inl (onlyFrees_of_same rfl)
  | destroy n =>
    rw [step]
    split
    · exact Or.inl (onlyFrees_of_same rfl)
    · next old _ => exact Or.inl (onlyFrees_freeMKey w old.mKeyPair)
  | sign n => exact log_read w n fun _ => by simp
  | verify n => exact Or.inl (onlyFrees_of_same rfl)
  | getPubKey n => exact log_read w n fun _ => by simp
  | getPrivKey n => exact log_read w n fun _ => by simp

theorem log_step_of_usesUnset (uses : call.usesUnset = true) :
    .read .indeterminate ∈ (step w call).log := by
  cases call with
  | constructFromFile type file =>
    rw [Call.usesUnset] at uses
    have logged : Event.read .indeterminate ∈ (w.make (Creation.initPrivKey type file).made).log := by
      rw [World.make, Made.log, uses, if_pos rfl]
      exact List.mem_append_right _ (List.mem_append_right _ List.mem_cons_self)
    rw [step_constructFromFile]
    split <;> exact logged
  | _ => cases uses

/-- **What nothing has set is used** by the calls that compare such a length. -/
theorem unused_step_iff (determinate : claims w .indeterminate = 0) :
    .read .indeterminate ∉ (step w call).log ↔
      .read .indeterminate ∉ w.log ∧ call.usesUnset = false := by
  by_cases uses : call.usesUnset = true
  · exact iff_of_false (not_not.mpr (log_step_of_usesUnset uses)) fun ⟨_, unused⟩ =>
      Bool.eq_false_iff.mp unused uses
  · have unused := Bool.eq_false_iff.mpr uses
    rcases @log_step w call unused with ⟨freed, log⟩ | ⟨_, object, pointer, there, holds, log⟩
    · have noRead : Event.read .indeterminate ∉ (freeing freed : List (Event Pointer Pointer)) :=
        fun reads => by simp [freeing] at reads
      rw [log, List.mem_append, or_iff_left noRead, and_iff_left unused]
    · have noRead : Event.read .indeterminate ∉ ([.read pointer] : List (Event Pointer Pointer)) := by
        intro reads
        obtain rfl := Event.read.inj (List.mem_singleton.mp reads)
        exact absurd determinate (Nat.ne_of_gt (claims_pos there holds))
      rw [log, List.mem_append, or_iff_left noRead, and_iff_left unused]

/-- **What a call does to fairness.** -/
theorem fair_step_iff_new (formed : Formed w) (valid : Valid w call) :
    Fair (step w call) ↔ Fair w ∧ ClaimsNew w call := by
  have after : ∀ pointer, claims (step w call) pointer =
      claims w pointer + (claimed w call).count pointer := fun pointer => claims_step valid
  have size := blocks_step w call
  constructor
  · intro fair
    have determinate := after .indeterminate
    rw [fair.determinate] at determinate
    -- What is claimed of the old blocks was claimed before, and once is enough.
    have old : ∀ block < w.blocks, claims w (.block block) = 1 ∧
        (claimed w call).count (.block block) = 0 := by
      intro block below
      have sum := after (.block block)
      rw [fair.once block (by omega)] at sum
      by_cases holds : .block block ∈ claimed w call
      · have counted := List.count_pos_iff.mpr holds
        rcases claimed_cases holds with claimed | same | ⟨later, new, _, same⟩
        · omega
        · cases same
        · obtain rfl := Pointer.block.inj same
          omega
      · rw [List.count_eq_zero.mpr holds] at sum
        exact ⟨by omega, List.count_eq_zero.mpr holds⟩
    have unused := (unused_step_iff (by omega)).mp fair.unused
    refine ⟨⟨by omega, fun block below => (old block below).1, unused.1⟩, ?_, fun block below => ?_,
      unused.2⟩
    · exact List.count_eq_zero.mp (by omega)
    · split
      · next before => exact (old block before).2
      · next new =>
        have sum := after (.block block)
        rw [fair.once block below, formed.fresh block (by omega)] at sum
        omega
  · rintro ⟨fair, new⟩
    refine ⟨?_, fun block below => ?_, ?_⟩
    · rw [after, fair.determinate, List.count_eq_zero.mpr new.determinate]
    · rw [after, new.blocks block below]
      split
      · next before => rw [fair.once block before]
      · next later => rw [formed.fresh block (by omega)]
    · exact (unused_step_iff fair.determinate).mpr ⟨fair.unused, new.unused⟩

/-- A function names each of its blocks once, and nothing else. -/
structure Made.Clean (made : Made) (kept : Bool) : Prop where
  determinate : .indeterminate ∉ made.pointers kept
  once : ∀ block < made.size, (made.pointers kept).count (.block block) = 1

theorem clean_iff {kept : Bool} :
    made.Clean kept ↔ .indeterminate ∉ made.pointers kept ∧
      ∀ block < made.size, (made.pointers kept).count (.block block) = 1 :=
  ⟨fun clean => ⟨clean.determinate, clean.once⟩, fun ⟨determinate, once⟩ => ⟨determinate, once⟩⟩

instance (made : Made) (kept : Bool) : Decidable (made.Clean kept) := decidable_of_iff' _ clean_iff

/-- **A call that claims what a function names.** -/
theorem claimsNew_iff_clean {kept : Bool} (claims : claimed w call = made.claimed w.blocks kept)
    (size : allocates w call = made.size) :
    ClaimsNew w call ↔ made.Clean kept ∧ call.usesUnset = false := by
  have blocks := blocks_step w call
  constructor
  · intro new
    refine ⟨⟨fun unset => new.determinate ?_, fun block below => ?_⟩, new.unused⟩
    · rw [claims]
      exact (indeterminate_mem_claimed kept).mpr unset
    · have later : ¬ w.blocks + block < w.blocks := by omega
      have count := new.blocks (w.blocks + block) (by omega)
      rw [claims, count_claimed, if_neg later, if_neg later, Nat.add_sub_cancel_left] at count
      exact count
  · rintro ⟨clean, unused⟩
    refine ⟨fun unset => clean.determinate ?_, fun block below => ?_, unused⟩
    · rw [claims] at unset
      exact (indeterminate_mem_claimed kept).mp unset
    · rw [claims, count_claimed]
      split
      · rfl
      · exact clean.once _ (by omega)

/-- What another object holds, or nothing has set, is not new. -/
theorem not_claimsNew_of_old (formed : Formed w) (there : w.object n = some object)
    (old : ∀ pointer ∈ object.mKeyPair.freed, pointer ∈ claimed w call) : ¬ ClaimsNew w call := by
  intro new
  have set := formed.privKey object (List.mem_of_getElem? (object_eq_some.mp there))
  have holds := privKey_freed set
  have member := old _ holds
  cases shape : object.mKeyPair.privKey with
  | null => exact set shape
  | indeterminate => exact new.determinate (shape ▸ member)
  | block block =>
    rw [shape] at holds member
    have before : block < w.blocks := by
      by_contra later
      exact absurd (formed.fresh block (Nat.not_lt.mp later)) (Nat.ne_of_gt (claims_pos there holds))
    have count := new.blocks block (by rw [blocks_step]; omega)
    rw [if_pos before] at count
    exact List.count_eq_zero.mp count member

/-- Nothing is claimed where nothing is allocated. -/
theorem claimsNew_of_nothing (nothing : claimed w call = []) (none : allocates w call = 0)
    (unused : call.usesUnset = false) : ClaimsNew w call where
  determinate := by
    rw [nothing]
    exact List.not_mem_nil
  blocks block below := by
    rw [blocks_step, none, Nat.add_zero] at below
    rw [nothing, if_pos below, List.count_nil]
  unused := unused

/-- **Which key files are read into a pair** whose blocks are all freed. -/
theorem initPrivKey_clean_iff (type : ATypes) (file : KeyFile) :
    ((Creation.initPrivKey type file).made.Clean
          (decide ((Creation.initPrivKey type file).made.mKeyPair.pkey ≠ .null)) ∧
        (Creation.initPrivKey type file).made.usesUnset = false) ↔
      type = .ed25519 ∧ file = .holds .raw := by
  cases file with
  | unreadable => cases type <;> decide
  | holds pkey => cases type <;> cases pkey <;> decide

/-- **Which calls claim what they allocate**, if all keys are Ed25519 keys. -/
theorem claimsNew_iff (formed : Formed w)
    (types : ∀ object, some object ∈ w.objects → object.mType = .ed25519) (valid : Valid w call) :
    ClaimsNew w call ↔ call.Keeps := by
  cases call with
  | constructFromFile type file =>
    exact (claimsNew_iff_clean rfl rfl).trans (initPrivKey_clean_iff type file)
  | constructGenerating type how =>
    exact iff_of_false (fun new => new.determinate (List.mem_append_left _ (by decide))) id
  | generateKeys n how =>
    obtain ⟨old, there⟩ := Option.isSome_iff_exists.mp (valid n (List.mem_singleton_self n))
    have type := types old (List.mem_of_getElem? (object_eq_some.mp there))
    cases opens : how.opens with
    | true =>
      have clean : Creation.generateEd25519.made.Clean true := by decide
      refine iff_of_true ((claimsNew_iff_clean ?_ ?_).mpr ⟨clean, rfl⟩) opens
      · simp only [claimed, there, opens, if_true, type, Creation.generate]
      · simp only [allocates, there, opens, if_true, type, Creation.generate]
    | false =>
      refine iff_of_false (not_claimsNew_of_old formed there fun pointer holds => ?_) fun keeps => ?_
      · simp only [claimed, there, opens, Bool.false_eq_true, if_false]
        exact holds
      · exact absurd (opens.symm.trans keeps) (by decide)
  | assign n b =>
    obtain ⟨other, there⟩ := Option.isSome_iff_exists.mp (valid b (by simp [Call.objects]))
    refine iff_of_false (not_claimsNew_of_old formed there fun pointer holds => ?_) id
    rw [claimed, there]
    exact holds
  | _ => exact iff_of_true (claimsNew_of_nothing rfl rfl rfl) trivial

/-! ### Along a run -/

theorem objects_read (w : World) (n : Nat) (member : KeyPointers → Pointer) :
    (w.read n member).objects = w.objects := by
  rcases read_cases w n member with same | ⟨_, same⟩ <;> rw [same]

/-- An object of this type is constructed. -/
def Call.constructs (mType : ATypes) : Call → Prop
  | constructFromFile type _ => type = mType
  | constructGenerating type _ => type = mType
  | _ => False

/-- **Where an object is from**: it was there, it was there with other keys, or it was constructed. -/
theorem objects_step (there : some object ∈ (step w call).objects) :
    some object ∈ w.objects ∨ ∃ creation : Creation,
      object.mKeyPair = creation.made.mKeyPair.shift w.blocks ∧
        ((∃ old, some old ∈ w.objects ∧ object.mType = old.mType) ∨ call.constructs object.mType) := by
  cases call with
  | constructFromFile type file =>
    rw [step_constructFromFile] at there
    split at there
    · exact Or.inl there
    · rcases List.mem_append.mp there with before | new
      · exact Or.inl before
      · obtain rfl := Option.some.inj (List.mem_singleton.mp new)
        exact Or.inr ⟨_, rfl, Or.inr rfl⟩
  | constructGenerating type how =>
    rw [step_constructGenerating] at there
    split at there
    · rcases List.mem_append.mp there with before | new
      · exact Or.inl before
      · obtain rfl := Option.some.inj (List.mem_singleton.mp new)
        exact Or.inr ⟨_, rfl, Or.inr rfl⟩
    · exact Or.inl there
  | generateKeys n how =>
    cases here : w.object n with
    | none =>
      simp only [step, here] at there
      exact Or.inl there
    | some old =>
      rw [step_generateKeys here] at there
      split at there
      · rcases List.mem_or_eq_of_mem_set there with before | new
        · exact Or.inl before
        · obtain rfl := Option.some.inj new
          exact Or.inr ⟨_, rfl, Or.inl ⟨old, List.mem_of_getElem? (object_eq_some.mp here), rfl⟩⟩
      · exact Or.inl there
  | assign n b =>
    rw [step] at there
    split at there
    · next _ _ _ other =>
      rcases List.mem_or_eq_of_mem_set there with before | new
      · exact Or.inl before
      · exact Or.inl (new ▸ List.mem_of_getElem? (object_eq_some.mp other))
    · exact Or.inl there
  | destroy n =>
    rw [step] at there
    split at there
    · exact Or.inl there
    · exact Or.inl ((List.mem_or_eq_of_mem_set there).resolve_right fun new => by cases new)
  | sign n => exact Or.inl (objects_read w n _ ▸ there)
  | verify n => exact Or.inl there
  | getPubKey n => exact Or.inl (objects_read w n _ ▸ there)
  | getPrivKey n => exact Or.inl (objects_read w n _ ▸ there)

theorem formed_step (formed : Formed w) (valid : Valid w call) : Formed (step w call) where
  fresh block above := by
    have size := blocks_step w call
    rw [claims_step valid, formed.fresh block (by omega), List.count_eq_zero.mpr fun holds => ?_]
    rcases claimed_cases holds with claimed | same | ⟨later, _, below, same⟩
    · exact absurd (formed.fresh block (by omega)) (Nat.ne_of_gt claimed)
    · cases same
    · obtain rfl := Pointer.block.inj same
      omega
  privKey object member := by
    rcases objects_step member with before | ⟨creation, made, _⟩
    · exact formed.privKey object before
    · rw [made]
      exact fun null => (creation_spec creation).2 (shift_eq_null.mp null)

/-- As long as all blocks are freed once, there are only Ed25519 keys. -/
def Typed (w : World) : Prop := Fair w → ∀ object, some object ∈ w.objects → object.mType = .ed25519

/-- **What is kept with it.** -/
theorem fair_step_iff (formed : Formed w) (typed : Typed w) (valid : Valid w call) :
    Fair (step w call) ↔ Fair w ∧ call.Keeps := by
  rw [fair_step_iff_new formed valid]
  exact and_congr_right fun fair => claimsNew_iff formed (typed fair) valid

theorem typed_step (formed : Formed w) (typed : Typed w) (valid : Valid w call) :
    Typed (step w call) := by
  intro later object member
  obtain ⟨fair, keeps⟩ := (fair_step_iff formed typed valid).mp later
  rcases objects_step member with before | ⟨_, _, ⟨old, before, same⟩ | constructs⟩
  · exact typed fair object before
  · exact same.trans (typed fair old before)
  · cases call with
    | constructFromFile type file => exact constructs.symm.trans keeps.1
    | constructGenerating type how => exact keeps.elim
    | _ => exact constructs.elim

theorem usesUnset_of_keeps (keeps : call.Keeps) : call.usesUnset = false := by
  cases call with
  | constructFromFile type file =>
    obtain ⟨rfl, rfl⟩ := keeps
    rfl
  | _ => rfl

/-- **A read of what an object holds is right**, if everything is freed once. -/
theorem readsLive_step (live : ReadsLive id w.log) (fair : Fair w) (formed : Formed w)
    (keeps : call.Keeps) : ReadsLive id (step w call).log := by
  rcases @log_step w call (usesUnset_of_keeps keeps) with
    ⟨freed, log⟩ | ⟨n, object, pointer, there, holds, log⟩
  · rw [log, readsLive_append]
    refine ⟨live, readsLive_freeing freed, fun place reads => ?_⟩
    obtain ⟨_, _, same⟩ := List.mem_map.mp reads
    cases same
  · have claimed := claims_pos there holds
    have atMost : claims w pointer ≤ 1 := by
      cases pointer with
      | null => exact absurd rfl (of_decide_eq_true (List.mem_filter.mp holds).2)
      | indeterminate => exact absurd fair.determinate (Nat.ne_of_gt claimed)
      | block block =>
        have below : block < w.blocks := by
          by_contra above
          exact absurd (formed.fresh block (Nat.not_lt.mp above)) (Nat.ne_of_gt claimed)
        exact Nat.le_of_eq (fair.once block below)
    have unfreed := frees_of_held (object_eq_some.mp there) holds atMost
    rw [log, readsLive_append]
    refine ⟨live, readsLive_singleton _, fun place reads => ?_⟩
    obtain rfl := Event.read.inj (List.mem_singleton.mp reads)
    exact frees_eq_zero.mp unfreed

/-! ### When all objects are destroyed -/

/-- **What every run keeps.** -/
structure Inv (w : World) : Prop where
  formed : Formed w
  typed : Typed w

theorem inv_start : Inv .start where
  formed := ⟨fun _ _ => rfl, fun _ member => by cases member⟩
  typed _ _ member := by cases member

theorem inv_step (inv : Inv w) (valid : Valid w call) : Inv (step w call) where
  formed := formed_step inv.formed valid
  typed := typed_step inv.formed inv.typed valid

theorem fair_start : Fair .start where
  determinate := rfl
  once _ below := absurd below (Nat.not_lt_zero _)
  unused member := by cases member

/-- The objects after a run. -/
def after (calls : List Call) : World := run step .start calls

/-- **Every block is freed once**, nothing is read afterwards, and nothing is freed or used that nothing
has set. -/
structure Released (w : World) : Prop where
  once : ∀ block < w.blocks, frees w.log (.block block) = 1
  determinate : frees w.log .indeterminate = 0
  unused : .read .indeterminate ∉ w.log
  live : ReadsLive id w.log

end Keeping

/-! ### A run -/

/-- A key is read from a file, used, replaced by a new one that is saved nowhere, and destroyed. -/
def sampleCalls : List Call :=
  [.constructFromFile .ed25519 (.holds .raw), .getPubKey 0, .sign 0, .verify 0,
    .generateKeys 0 ⟨true, .succeeds⟩, .getPrivKey 0, .destroy 0]

end Bacteria.EncDec.BasicVerify
