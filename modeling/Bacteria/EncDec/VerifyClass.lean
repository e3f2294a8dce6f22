/-
**The class `basic_verify` and the functions that make its keys.**

src/src/protocolcxx/ed25519rsa.cpp and ed25519rsa.h, with the functions of
src/libbacteria/encdec/verify/rsa_ed25519.c and the macros of encdec/rsa_ed25519.h.

* `KeyPointers` — the pointers of an object's `mKeyPair`.
* `generateKeysEd25519`, `generateKeysRSA`, `ed25519rsaInitPrivKey` — what they allocate and free.
* `Call`, `step` — what a program does with objects of the class.
* `Creation.made`, `creation_run` — what each of the functions leaves, wherever its blocks begin.
* `step_constructFromFile`, `step_constructGenerating`, `step_generateKeys` — the calls that use them.
-/

import Bacteria.Lib.Owners

namespace Bacteria.EncDec.BasicVerify

open AllocLog Owners

/-- What a pointer is: a member that nothing has set is `indeterminate`, which is not null. -/
inductive Pointer where
  | null
  | indeterminate
  | block (n : Nat)
deriving DecidableEq

/-- `enum aTypes` -/
inductive ATypes where
  | ed25519
  | aRSA
deriving DecidableEq

/-- The pointers of `struct aKeyPair`. -/
structure KeyPointers where
  pkey : Pointer
  privKey : Pointer
  pubKey : Pointer
deriving DecidableEq

/-- Nothing is set. -/
def KeyPointers.unset : KeyPointers := ⟨.indeterminate, .indeterminate, .indeterminate⟩

/-- What `freeMKey` frees, in its order. -/
def KeyPointers.freed (mKeyPair : KeyPointers) : List Pointer :=
  [mKeyPair.pkey, mKeyPair.privKey, mKeyPair.pubKey].filter fun pointer => pointer ≠ .null

/-- The members of a `basic_verify`. -/
structure Object where
  mKeyPair : KeyPointers
  mType : ATypes

/-- The objects, the log, and how many blocks were allocated. -/
structure World where
  objects : List (Option Object)
  log : List (Event Pointer Pointer)
  blocks : Nat

/-! ### What makes the keys -/

/-- A C function that allocates and frees. -/
abbrev Allocates := StateM World

def malloc : Allocates Pointer := fun w => (.block w.blocks, { w with blocks := w.blocks + 1 })

def free (pointer : Pointer) : Allocates Unit :=
  fun w => ((), { w with log := w.log ++ [.free pointer] })

/-- What nothing has set is used. -/
def useUnset : Allocates Unit := fun w => ((), { w with log := w.log ++ [.read .indeterminate] })

section Allocates

variable (w : World) (pointer : Pointer)

@[simp] theorem malloc_run :
    malloc.run w = pure (.block w.blocks, { w with blocks := w.blocks + 1 }) := rfl

@[simp] theorem free_run :
    (free pointer).run w = pure ((), { w with log := w.log ++ [.free pointer] }) := rfl

@[simp] theorem useUnset_run :
    useUnset.run w = pure ((), { w with log := w.log ++ [.read .indeterminate] }) := rfl

end Allocates

/-- What is behind `pkey`: no key, a key that `EVP_PKEY_get_raw_public_key` knows, or another. -/
inductive Pkey where
  | none
  | raw
  | other
deriving DecidableEq

/-- `INITBIO`, `BIOTORT` and `FREEBIO` -/
def biotort (rt : KeyPointers) : Allocates KeyPointers := do
  let bioPub ← malloc
  let bioPriv ← malloc
  let pubKey ← malloc
  let privKey ← malloc
  free bioPriv
  free bioPub
  return { rt with privKey := privKey, pubKey := pubKey }

/-- `INITKEYS`; both keys were written to `bio_priv`, so that `pubKeyLen` is zero. -/
def initKeys (type : ATypes) (pkey : Pkey) (rt : KeyPointers) : Allocates KeyPointers :=
  match pkey, type with
  -- Nothing was written.
  | .none, _ => return rt
  | .raw, .ed25519 => do
    free rt.pubKey
    let pubKey ← malloc
    free rt.privKey
    let privKey ← malloc
    return { rt with privKey := privKey, pubKey := pubKey }
  | .other, .ed25519 => do
    -- `keySize` is compared, and nothing has set it.
    useUnset
    return rt
  | _, .aRSA => do
    -- What `GetStrFromLineToLine` returns is copied, and stays behind.
    let _privKey ← malloc
    let _pubKey ← malloc
    free rt.privKey
    let privKey ← malloc
    free rt.pubKey
    let pubKey ← malloc
    return { rt with privKey := privKey, pubKey := pubKey }

def generateKeysEd25519 : Allocates KeyPointers := do
  let pctx ← malloc
  let pkey ← malloc
  let rt ← biotort .unset
  let rt ← initKeys .ed25519 .raw rt
  free pctx
  return { rt with pkey := pkey }

/-- How far the generation of an RSA key gets; `EVP_PKEY_keygen` makes none if there are too many primes
for so many bits. -/
inductive Keygen where
  | noContext
  | notInitialised
  | refused
  | fails
  | succeeds
deriving DecidableEq

def generateKeysRSA : Keygen → Allocates KeyPointers
  | .noContext => return .unset
  | .notInitialised => do
    let _ctx ← malloc
    return .unset
  | .refused => do
    let ctx ← malloc
    free ctx
    return .unset
  | .fails => do
    let ctx ← malloc
    free ctx
    -- It does not return here.
    let rt ← biotort .unset
    let rt ← initKeys .aRSA .none rt
    free ctx
    return { rt with pkey := .null }
  | .succeeds => do
    let ctx ← malloc
    let pkey ← malloc
    let rt ← biotort .unset
    let rt ← initKeys .aRSA .other rt
    free ctx
    return { rt with pkey := pkey }

/-- A file that is there: it cannot be opened, or `PEM_read_PrivateKey` reads this from it. -/
inductive KeyFile where
  | unreadable
  | holds (pkey : Pkey)
deriving DecidableEq

def ed25519rsaInitPrivKey (type : ATypes) : KeyFile → Allocates KeyPointers
  | .unreadable => return .unset
  | .holds pkey => do
    let key ← if pkey = .none then pure .null else malloc
    let rt ← biotort { KeyPointers.unset with pkey := key }
    initKeys type pkey rt

def freeMKey (mKeyPair : KeyPointers) : Allocates Unit :=
  fun w => ((), { w with log := w.log ++ freeing mKeyPair.freed })

/-- How a call of `generateKeys` goes: whether the file could be opened, or none was wanted, and how far
the generation gets if the key is an RSA key. -/
structure Generation where
  opens : Bool
  keygen : Keygen

/-- `generateKeys`, for these members: what they are set to, `none` when it throws. -/
def generateKeys (mType : ATypes) (mKeyPair : KeyPointers) (how : Generation) :
    Allocates (Option KeyPointers) := do
  freeMKey mKeyPair
  if how.opens then
    match mType with
    | .ed25519 => return some (← generateKeysEd25519)
    | .aRSA => return some (← generateKeysRSA how.keygen)
  else return none

/-! ### What a program does -/

namespace World

def start : World := ⟨[], [], 0⟩

/-- A live object. -/
def object (w : World) (n : Nat) : Option Object := w.objects[n]?.join

def add (w : World) (object : Object) : World := { w with objects := w.objects ++ [some object] }

def set (w : World) (n : Nat) (object : Option Object) : World :=
  { w with objects := w.objects.set n object }

/-- What a method reads behind a member; nothing behind null. -/
def read (w : World) (n : Nat) (member : KeyPointers → Pointer) : World :=
  match w.object n with
  | none => w
  | some object =>
    if member object.mKeyPair = .null then w
    else { w with log := w.log ++ [.read (member object.mKeyPair)] }

end World

/-- What a program does with the objects; they are numbered as they were constructed. -/
inductive Call where
  /-- There is a key file. -/
  | constructFromFile (type : ATypes) (file : KeyFile)
  /-- There is none. -/
  | constructGenerating (type : ATypes) (how : Generation)
  | generateKeys (n : Nat) (how : Generation)
  /-- `operator=(basic_verify &&b)`. -/
  | assign (n b : Nat)
  | destroy (n : Nat)
  | sign (n : Nat)
  /-- It is given the key, and reads no member but `mType`. -/
  | verify (n : Nat)
  | getPubKey (n : Nat)
  | getPrivKey (n : Nat)

/-- One call. A constructor that throws leaves no object. -/
def step (w : World) : Call → World
  | .constructFromFile type file =>
    match (ed25519rsaInitPrivKey type file).run w with
    | (mKeyPair, w) => if mKeyPair.pkey = .null then w else w.add ⟨mKeyPair, type⟩
  | .constructGenerating type how =>
    match (BasicVerify.generateKeys type .unset how).run w with
    | (none, w) => w
    | (some mKeyPair, w) => w.add ⟨mKeyPair, type⟩
  | .generateKeys n how =>
    match w.object n with
    | none => w
    | some old =>
      match (BasicVerify.generateKeys old.mType old.mKeyPair how).run w with
      | (none, w) => w
      | (some mKeyPair, w) => w.set n (some ⟨mKeyPair, old.mType⟩)
  | .assign n b =>
    match w.object n, w.object b with
    | some old, some other => ((freeMKey old.mKeyPair).run w).2.set n (some other)
    | _, _ => w
  | .destroy n =>
    match w.object n with
    | none => w
    | some old => ((freeMKey old.mKeyPair).run w).2.set n none
  | .sign n => w.read n KeyPointers.pkey
  | .verify _ => w
  | .getPubKey n => w.read n KeyPointers.pubKey
  | .getPrivKey n => w.read n KeyPointers.privKey

/-! ### What each function leaves -/

/-- A block of a function whose first block is this one. -/
def Pointer.shift (first : Nat) : Pointer → Pointer
  | null => .null
  | indeterminate => .indeterminate
  | block n => .block (first + n)

def KeyPointers.shift (first : Nat) (mKeyPair : KeyPointers) : KeyPointers :=
  ⟨mKeyPair.pkey.shift first, mKeyPair.privKey.shift first, mKeyPair.pubKey.shift first⟩

/-- What a function leaves: the pair, what it has freed itself, whether it used what nothing has set,
and how many blocks it allocated. -/
structure Made where
  mKeyPair : KeyPointers
  freed : List Pointer
  usesUnset : Bool
  size : Nat

/-- What it logs. -/
def Made.log (made : Made) (first : Nat) : List (Event Pointer Pointer) :=
  freeing (made.freed.map (Pointer.shift first)) ++
    if made.usesUnset then [.read .indeterminate] else []

/-- What it frees, and what the pair holds if it is kept. -/
def Made.pointers (made : Made) (kept : Bool) : List Pointer :=
  made.freed ++ if kept then made.mKeyPair.freed else []

/-- The functions that make a pair. -/
inductive Creation where
  | initPrivKey (type : ATypes) (file : KeyFile)
  | generateEd25519
  | generateRSA (keygen : Keygen)

/-- The one that `generateKeys` calls. -/
def Creation.generate (mType : ATypes) (keygen : Keygen) : Creation :=
  match mType with
  | .ed25519 => generateEd25519
  | .aRSA => generateRSA keygen

def Creation.function : Creation → Allocates KeyPointers
  | initPrivKey type file => ed25519rsaInitPrivKey type file
  | generateEd25519 => generateKeysEd25519
  | generateRSA keygen => generateKeysRSA keygen

/-- What an event frees. -/
def freedBy : Event Pointer Pointer → Option Pointer
  | .free pointer => some pointer
  | _ => none

/-- What it leaves if its first block is the first one of all. -/
def Creation.made (creation : Creation) : Made :=
  match creation.function.run .start with
  | (mKeyPair, w) =>
    ⟨mKeyPair, w.log.filterMap freedBy, decide (.read .indeterminate ∈ w.log), w.blocks⟩

/-- The log and the blocks after it. -/
def World.make (w : World) (made : Made) : World :=
  { w with log := w.log ++ made.log w.blocks, blocks := w.blocks + made.size }

/-- **What a function leaves**, wherever its blocks begin. -/
theorem creation_run (creation : Creation) (w : World) :
    creation.function.run w = (creation.made.mKeyPair.shift w.blocks, w.make creation.made) := by
  have nothing : ∀ blocks, { w with blocks } = { w with log := w.log ++ [], blocks } :=
    fun blocks => congrArg (World.mk w.objects · blocks) (List.append_nil _).symm
  cases creation with
  | initPrivKey type file =>
    cases file with
    | unreadable => exact Prod.ext rfl (nothing _)
    | holds pkey =>
      cases type <;> cases pkey <;>
        simp [Creation.function, ed25519rsaInitPrivKey, biotort, initKeys] <;> rfl
  | generateEd25519 =>
    simp [Creation.function, generateKeysEd25519, biotort, initKeys]
    rfl
  | generateRSA keygen =>
    cases keygen with
    | noContext => exact Prod.ext rfl (nothing _)
    | notInitialised => exact Prod.ext rfl (nothing _)
    | refused => rfl
    | fails =>
      simp [Creation.function, generateKeysRSA, biotort, initKeys]
      rfl
    | succeeds =>
      simp [Creation.function, generateKeysRSA, biotort, initKeys]
      rfl

/-- The pair that `generateKeys` makes, if it does not throw. -/
theorem generateKeys_run (w : World) (mType : ATypes) (mKeyPair : KeyPointers) (how : Generation) :
    (generateKeys mType mKeyPair how).run w =
      if how.opens then
        (some ((Creation.generate mType how.keygen).made.mKeyPair.shift w.blocks),
          ((freeMKey mKeyPair).run w).2.make (Creation.generate mType how.keygen).made)
      else (none, ((freeMKey mKeyPair).run w).2) := by
  cases opens : how.opens with
  | true =>
    have made := creation_run (Creation.generate mType how.keygen) ((freeMKey mKeyPair).run w).2
    cases mType <;> simp only [generateKeys, opens, if_true] <;>
      exact congrArg (fun result => (some result.1, result.2)) made
  | false =>
    simp only [generateKeys, opens, Bool.false_eq_true, if_false]
    rfl

/-! ### The pointers of a function -/

/-- What a function names: a block of its own, or what nothing has set. -/
def Pointer.Below (size : Nat) : Pointer → Prop
  | null => False
  | indeterminate => True
  | block n => n < size

instance (size : Nat) : DecidablePred (Pointer.Below size)
  | .null => inferInstanceAs (Decidable False)
  | .indeterminate => inferInstanceAs (Decidable True)
  | .block n => inferInstanceAs (Decidable (n < size))

section Shift

variable {made : Made} {creation : Creation} {first block : Nat} {pointer : Pointer}

/-- **What all functions have in common**: they name no other blocks than their own, and there is a buffer
for the private key. -/
theorem creation_spec (creation : Creation) :
    (∀ pointer ∈ creation.made.pointers true, pointer.Below creation.made.size) ∧
      creation.made.mKeyPair.privKey ≠ .null := by
  cases creation with
  | initPrivKey type file =>
    cases file with
    | unreadable => cases type <;> decide
    | holds pkey => cases type <;> cases pkey <;> decide
  | generateEd25519 => decide
  | generateRSA keygen => cases keygen <;> decide

theorem generate_usesUnset (mType : ATypes) (keygen : Keygen) :
    (Creation.generate mType keygen).made.usesUnset = false := by
  cases mType with
  | ed25519 => rfl
  | aRSA => cases keygen <;> rfl

theorem shift_injective (first : Nat) : Function.Injective (Pointer.shift first) := by
  intro one other same
  cases one <;> cases other <;> simp [Pointer.shift] at same ⊢
  exact same

@[simp] theorem shift_eq_null : pointer.shift first = .null ↔ pointer = .null := by
  cases pointer <;> simp [Pointer.shift]

theorem freed_shift (mKeyPair : KeyPointers) (first : Nat) :
    (mKeyPair.shift first).freed = mKeyPair.freed.map (Pointer.shift first) := by
  have kept : (fun pointer : Pointer => decide (pointer ≠ .null)) ∘ Pointer.shift first =
      fun pointer => decide (pointer ≠ .null) :=
    funext fun pointer => decide_eq_decide.mpr (not_congr shift_eq_null)
  calc (mKeyPair.shift first).freed
      = ([mKeyPair.pkey, mKeyPair.privKey, mKeyPair.pubKey].map (Pointer.shift first)).filter
          fun pointer => pointer ≠ .null := rfl
    _ = mKeyPair.freed.map (Pointer.shift first) := by rw [List.filter_map, kept, KeyPointers.freed]

theorem pointers_subset (kept : Bool) : made.pointers kept ⊆ made.pointers true := by
  cases kept with
  | false => exact fun _ member => List.mem_append_left _ (List.append_nil made.freed ▸ member)
  | true => exact fun _ member => member

/-- What a function names, wherever its blocks begin. -/
def Made.claimed (made : Made) (first : Nat) (kept : Bool) : List Pointer :=
  (made.pointers kept).map (Pointer.shift first)

theorem mem_claimed {kept : Bool} (holds : pointer ∈ creation.made.claimed first kept) :
    pointer = .indeterminate ∨
      ∃ block, first ≤ block ∧ block < first + creation.made.size ∧ pointer = .block block := by
  obtain ⟨own, member, rfl⟩ := List.mem_map.mp holds
  have below := (creation_spec creation).1 own (pointers_subset kept member)
  cases own with
  | null => exact below.elim
  | indeterminate => exact Or.inl rfl
  | block n => exact Or.inr ⟨first + n, Nat.le_add_right first n, Nat.add_lt_add_left below first, rfl⟩

theorem count_claimed (kept : Bool) :
    (made.claimed first kept).count (.block block) =
      if block < first then 0 else (made.pointers kept).count (.block (block - first)) := by
  split
  · next before =>
    refine List.count_eq_zero.mpr fun holds => ?_
    obtain ⟨own, _, same⟩ := List.mem_map.mp holds
    cases own <;> simp [Pointer.shift] at same
    omega
  · next later =>
    have place : Pointer.block block = (Pointer.block (block - first)).shift first :=
      congrArg Pointer.block (by omega)
    rw [place, Made.claimed, List.count_map_of_injective _ _ (shift_injective first)]

theorem indeterminate_mem_claimed (kept : Bool) :
    .indeterminate ∈ made.claimed first kept ↔ .indeterminate ∈ made.pointers kept := by
  have same : Pointer.indeterminate = Pointer.indeterminate.shift first := rfl
  rw [Made.claimed]
  conv_lhs => rw [same]
  exact List.mem_map_of_injective (shift_injective first)

end Shift

/-! ### The calls that make a pair -/

section Steps

variable {w : World} {n : Nat} {object : Object}

/-- The old keys are freed, also if it throws. -/
theorem step_generateKeys (there : w.object n = some object) (how : Generation) :
    step w (.generateKeys n how) =
      if how.opens then
        (((freeMKey object.mKeyPair).run w).2.make
            (Creation.generate object.mType how.keygen).made).set n
          (some ⟨(Creation.generate object.mType how.keygen).made.mKeyPair.shift w.blocks,
            object.mType⟩)
      else ((freeMKey object.mKeyPair).run w).2 := by
  rw [step, there]
  simp only [generateKeys_run]
  cases how.opens <;> rfl

theorem step_constructGenerating (w : World) (type : ATypes) (how : Generation) :
    step w (.constructGenerating type how) =
      if how.opens then
        (((freeMKey .unset).run w).2.make (Creation.generate type how.keygen).made).add
          ⟨(Creation.generate type how.keygen).made.mKeyPair.shift w.blocks, type⟩
      else ((freeMKey .unset).run w).2 := by
  rw [step, generateKeys_run]
  cases how.opens <;> rfl

theorem step_constructFromFile (w : World) (type : ATypes) (file : KeyFile) :
    step w (.constructFromFile type file) =
      if (Creation.initPrivKey type file).made.mKeyPair.pkey = .null then
        w.make (Creation.initPrivKey type file).made
      else (w.make (Creation.initPrivKey type file).made).add
        ⟨(Creation.initPrivKey type file).made.mKeyPair.shift w.blocks, type⟩ := by
  have made := creation_run (Creation.initPrivKey type file) w
  rw [Creation.function] at made
  rw [step, made]
  exact if_congr shift_eq_null rfl rfl

end Steps

end Bacteria.EncDec.BasicVerify
