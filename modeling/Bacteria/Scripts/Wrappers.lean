/-
**The wrapper objects and their handles.**

src/luasubmodules/gd.lua and bencdec.lua, over the bindings of libimages.c and libencdec.c. The methods
that assign the fields `gd`, `aesdata_enc`, `aesdata_dec` and `keyPair`; the others leave them alone.

* `Slot`, `Place`, `World` — the fields, and the state over them; the bindings that make handles are
  `make` of the library, and `gdFree`, `freeAESData` and `freeKeyPair` are its `free`.
* `clearBlock` — the block of every `clear`; `Gd`, `Baes`, `KeyPair` — the methods; `Call`, `step` — as
  calls of a script.
* `clearBlock_run` — no `clear` does anything; `step_eq` — what each call does.
-/

import Bacteria.Lib.Handles

namespace Bacteria.Scripts

open Handles Lua

/-! ### Objects and fields -/

/-- What the bindings make. -/
inductive Kind where
  | image
  | aesData
  | keyPair
deriving DecidableEq

/-- What `gd:new`, `baes:new` and `baes:newKeyPair` make. -/
inductive Class where
  | gd
  | baes
  | keyPair
deriving DecidableEq

/-- The fields for handles: `gd`, `aesdata_enc`, `aesdata_dec` and `keyPair`. -/
inductive Slot where
  | gd
  | aesdataEnc
  | aesdataDec
  | keyPair
deriving DecidableEq

/-- What the handles of a field are handles of. -/
def Slot.kind : Slot → Kind
  | .gd => .image
  | .aesdataEnc => .aesData
  | .aesdataDec => .aesData
  | .keyPair => .keyPair

/-- The objects that have the field. -/
def Slot.cls : Slot → Class
  | .gd => .gd
  | .aesdataEnc => .baes
  | .aesdataDec => .baes
  | .keyPair => .keyPair

/-- A field of a wrapper, known by the wrapper's identity. -/
abbrev Place := Nat × Slot

def kindOf (place : Place) : Kind := place.2.kind

/-- Tables and userdata, with the fields of the wrappers among them. A userdata is hollow that is the
`struct image` of a file that could not be read, or a key pair without a key. -/
abbrev World (ν : Type) := Heap Kind Class Place ν

/-! ### The methods -/

section Methods

variable {ν : Type}

/-- The table of a new wrapper. -/
def newWrapper (cls : Class) : Script (World ν) Nat := do
  let w ← get
  set (w.add (.wrapper cls))
  return w.objects.length

variable [DecidableEq ν]

/-- `if not obj.field == nil then free(obj.field) obj.field = nil end`, and whether it was done. -/
def clearBlock (place : Place) : Script (World ν) Bool := do
  let handle ← load place
  if (luaEq (luaNot handle) .nil).toBoolean then
    free handle
    store place .nil
    return true
  else
    return false

namespace Gd

/-- `gd:new`. -/
def new : Script (World ν) (Value ν) := do
  let n ← newWrapper .gd
  modify fun w => w.init (n, .gd) ⟨.nil, false⟩
  return .object n

/-- `obj:clear()`. -/
def clear (n : Nat) : Script (World ν) (Value ν) := do
  if ← clearBlock (n, .gd) then
    return .boolean true
  else
    return .nil

/-- `obj:setGD(gd)`. -/
def setGD (n : Nat) (gd : Value ν) : Script (World ν) (Value ν) := do
  let _ ← clear n
  store (n, .gd) gd
  return .nil

/-- `obj:initImage(background)`, with what `gdInitImage` makes. -/
def initImage (n : Nat) (result : Made) : Script (World ν) (Value ν) := do
  assign .image (n, .gd) result
  return .boolean true

/-- `obj:initImageFromFile(path, width, height)`, with what `gdInitImageFromFile` makes. -/
def initImageFromFile (n : Nat) (result : Made) : Script (World ν) (Value ν) := do
  let gd ← load (n, .gd)
  if (luaEq (luaNot gd) .nil).toBoolean then
    return .nil
  else
    assign .image (n, .gd) result
    return .boolean true

/-- `obj:reopenFromFile(width, height, path)`. -/
def reopenFromFile (n : Nat) (result : Made) : Script (World ν) (Value ν) := do
  let _ ← clear n
  -- what comes back is not the image, but whether there is one
  let gd ← initImageFromFile n result
  store (n, .gd) gd
  return .object n

end Gd

namespace Baes

/-- `baes:new`, when its key gets the right length. -/
def new : Script (World ν) (Value ν) := do
  let n ← newWrapper .baes
  let enc ← alloc .table
  modify fun w => w.init (n, .aesdataEnc) ⟨enc, false⟩
  let dec ← alloc .table
  modify fun w => w.init (n, .aesdataDec) ⟨dec, false⟩
  return .object n

/-- `obj:setAESData_enc(msg, size)`, with what `createAESData` makes. -/
def setAESDataEnc (n : Nat) (result : Made) : Script (World ν) (Value ν) := do
  assign .aesData (n, .aesdataEnc) result
  return .nil

/-- `obj:encrypt(msg, t)`, with what `AESenc` makes. -/
def encrypt (n : Nat) (result : Made) : Script (World ν) (Value ν) := do
  assign .aesData (n, .aesdataEnc) result
  return .nil

/-- `obj:decrypt(aesdata, t)`, with what `AESdec` makes. -/
def decrypt (n : Nat) (result : Made) : Script (World ν) (Value ν) := do
  assign .aesData (n, .aesdataDec) result
  return .nil

/-- `obj:clear()`. -/
def clear (n : Nat) : Script (World ν) (Value ν) := do
  let _ ← clearBlock (n, .aesdataEnc)
  let _ ← clearBlock (n, .aesdataDec)
  return .nil

end Baes

namespace KeyPair

/-- `baes:newKeyPair(keyPair)`. -/
def new (keyPair : Value ν) : Script (World ν) (Value ν) := do
  let n ← newWrapper .keyPair
  let value ← if keyPair.toBoolean then pure keyPair else alloc .table
  modify fun w => w.init (n, .keyPair) ⟨value, keyPair.toBoolean⟩
  return .object n

/-- `obj:initKeyPair(pub, priv)`, with what `getKeyPair` or `createKeyPair` makes. -/
def initKeyPair (n : Nat) (result : Made) : Script (World ν) (Value ν) := do
  let keyPair ← load (n, .keyPair)
  let empty ← alloc .table
  if (luaEq (luaNot keyPair) empty).toBoolean then
    return .boolean false
  else
    let _ ← alloc .table
    assign .keyPair (n, .keyPair) result
    return .boolean true

/-- `obj:initKeyPairFromFile(filepath)`, with what the binding makes. -/
def initKeyPairFromFile (n : Nat) (result : Made) : Script (World ν) (Value ν) := do
  let tmp ← make .keyPair result
  if (luaEq tmp .nil).toBoolean then
    failure
  else
    store (n, .keyPair) tmp
    return .nil

/-- `obj:clear()`. -/
def clear (n : Nat) : Script (World ν) (Value ν) := do
  let _ ← clearBlock (n, .keyPair)
  return .nil

end KeyPair

end Methods

/-! ### Calls -/

inductive GdMethod (ν : Type) where
  | setGD (gd : Value ν)
  | reopenFromFile (result : Made)
  | initImage (result : Made)
  | initImageFromFile (result : Made)
  | clear
  | other

inductive BaesMethod where
  | setAESDataEnc (result : Made)
  | encrypt (result : Made)
  | decrypt (result : Made)
  | clear
  | other

inductive KeyPairMethod where
  | initKeyPair (result : Made)
  | initKeyPairFromFile (result : Made)
  | clear
  | other

/-- A call in a script: a wrapper is made, a binding is called for a handle, or a method of the wrapper
`n`. -/
inductive Call (ν : Type) where
  | newGd
  | newBaes
  | newKeyPair (keyPair : Value ν)
  | native (kind : Kind)
  | gd (n : Nat) (method : GdMethod ν)
  | baes (n : Nat) (method : BaesMethod)
  | keyPair (n : Nat) (method : KeyPairMethod)

section Calls

variable {ν : Type} [DecidableEq ν]

/-- A method of a wrapper; no other object has it. -/
def method (n : Nat) (cls : Class) (body : Script (World ν) (Value ν)) :
    Script (World ν) (Value ν) := do
  let w ← get
  if w.objects[n]? = some (.wrapper cls) then body else failure

def GdMethod.script (n : Nat) : GdMethod ν → Script (World ν) (Value ν)
  | setGD gd => Gd.setGD n gd
  | reopenFromFile result => Gd.reopenFromFile n result
  | initImage result => Gd.initImage n result
  | initImageFromFile result => Gd.initImageFromFile n result
  | clear => Gd.clear n
  | other => return .nil

def BaesMethod.script (n : Nat) : BaesMethod → Script (World ν) (Value ν)
  | setAESDataEnc result => Baes.setAESDataEnc n result
  | encrypt result => Baes.encrypt n result
  | decrypt result => Baes.decrypt n result
  | clear => Baes.clear n
  | other => return .nil

def KeyPairMethod.script (n : Nat) : KeyPairMethod → Script (World ν) (Value ν)
  | initKeyPair result => KeyPair.initKeyPair n result
  | initKeyPairFromFile result => KeyPair.initKeyPairFromFile n result
  | clear => KeyPair.clear n
  | other => return .nil

def Call.script : Call ν → Script (World ν) (Value ν)
  | newGd => Gd.new
  | newBaes => Baes.new
  | newKeyPair pair => KeyPair.new pair
  | native kind => alloc (.native kind)
  | gd n m => method n .gd (m.script n)
  | baes n m => method n .baes (m.script n)
  | keyPair n m => method n .keyPair (m.script n)

/-- The world after a call, also after one that raised an error. -/
def step (w : World ν) (call : Call ν) : World ν := (call.script.run w).2

end Calls

/-! ### What each call does -/

section Steps

variable {ν : Type}

/-- **What the methods of a gd object do.** -/
def GdMethod.after (w : World ν) (n : Nat) : GdMethod ν → World ν
  | setGD gd => w.put (n, .gd) gd
  | reopenFromFile .raised => w
  | reopenFromFile result => (w.assigned .image (n, .gd) result).put (n, .gd) (.boolean true)
  | initImage result => w.assigned .image (n, .gd) result
  | initImageFromFile result => w.assigned .image (n, .gd) result
  | clear => w
  | other => w

/-- Of a baes object. -/
def BaesMethod.after (w : World ν) (n : Nat) : BaesMethod → World ν
  | setAESDataEnc result => w.assigned .aesData (n, .aesdataEnc) result
  | encrypt result => w.assigned .aesData (n, .aesdataEnc) result
  | decrypt result => w.assigned .aesData (n, .aesdataDec) result
  | clear => w
  | other => w

/-- Of a key pair; nothing is stored when the file gives nil. -/
def KeyPairMethod.after (w : World ν) (n : Nat) : KeyPairMethod → World ν
  | initKeyPair result => ((w.add .table).add .table).assigned .keyPair (n, .keyPair) result
  | initKeyPairFromFile .nothing => w
  | initKeyPairFromFile result => w.assigned .keyPair (n, .keyPair) result
  | clear => w
  | other => w

/-- **What a call does**; what is no such wrapper has no such method. -/
def Call.after (w : World ν) : Call ν → World ν
  | newGd => (w.add (.wrapper .gd)).init (w.objects.length, .gd) ⟨.nil, false⟩
  | newBaes =>
    let n := w.objects.length
    ((((w.add (.wrapper .baes)).add .table).init (n, .aesdataEnc)
      ⟨.object (w.add (.wrapper .baes)).objects.length, false⟩).add .table).init (n, .aesdataDec)
        ⟨.object ((w.add (.wrapper .baes)).add .table).objects.length, false⟩
  | newKeyPair pair =>
    let n := w.objects.length
    if pair.toBoolean then (w.add (.wrapper .keyPair)).init (n, .keyPair) ⟨pair, true⟩
    else ((w.add (.wrapper .keyPair)).add .table).init (n, .keyPair)
      ⟨.object (w.add (.wrapper .keyPair)).objects.length, false⟩
  | native kind => w.add (.native kind)
  | gd n m => if w.objects[n]? = some (.wrapper .gd) then m.after w n else w
  | baes n m => if w.objects[n]? = some (.wrapper .baes) then m.after w n else w
  | keyPair n m => if w.objects[n]? = some (.wrapper .keyPair) then m.after w n else w

theorem method_run (w : World ν) (n : Nat) (cls : Class) (body : Script (World ν) (Value ν)) :
    ((method n cls body).run w).2 =
      if w.objects[n]? = some (.wrapper cls) then (body.run w).2 else w := by
  have unfolded : (method n cls body).run w =
      (if w.objects[n]? = some (.wrapper cls) then body else failure).run w := rfl
  rw [unfolded]
  split
  · rfl
  · rfl

variable [DecidableEq ν]

/-- **No `clear` does anything**: its condition asks whether a boolean is nil. -/
theorem clearBlock_run (w : World ν) (place : Place) :
    (clearBlock place).run w = (some false, w) := by
  rw [clearBlock, run_bind_of_some (load_run w place),
    if_neg (by rw [not_eq_nil]; exact Bool.false_ne_true)]
  rfl

theorem gd_clear_run (w : World ν) (n : Nat) : (Gd.clear n).run w = (some .nil, w) := by
  rw [Gd.clear, run_bind_of_some (clearBlock_run w (n, .gd))]
  rfl

/-- Nor does `initImageFromFile` see the old image. -/
theorem initImageFromFile_run (w : World ν) (n : Nat) (result : Made) :
    (Gd.initImageFromFile n result).run w = (Gd.initImage n result).run w := by
  rw [Gd.initImageFromFile, run_bind_of_some (load_run w (n, .gd)),
    if_neg (by rw [not_eq_nil]; exact Bool.false_ne_true)]
  rfl

omit [DecidableEq ν] in
theorem initImage_run (w : World ν) (n : Nat) (result : Made) : (Gd.initImage n result).run w =
    (if result = .raised then none else some (.boolean true), w.assigned .image (n, .gd) result) := by
  cases result <;> rfl

theorem gd_run (w : World ν) (n : Nat) (m : GdMethod ν) :
    ((m.script n).run w).2 = m.after w n := by
  cases m with
  | setGD gd =>
    rw [GdMethod.script, Gd.setGD, run_bind_of_some (gd_clear_run w n)]
    rfl
  | reopenFromFile result =>
    rw [GdMethod.script, Gd.reopenFromFile, run_bind_of_some (gd_clear_run w n)]
    cases result with
    | raised => rfl
    | _ => rw [run_bind_of_some ((initImageFromFile_run w n _).trans (initImage_run w n _))]; rfl
  | initImage result => rw [GdMethod.script, initImage_run, GdMethod.after]
  | initImageFromFile result =>
    rw [GdMethod.script, initImageFromFile_run, initImage_run, GdMethod.after]
  | clear => rw [GdMethod.script, gd_clear_run, GdMethod.after]
  | other => rfl

theorem baes_run (w : World ν) (n : Nat) (m : BaesMethod) :
    ((m.script n).run w).2 = m.after w n := by
  cases m with
  | setAESDataEnc result => cases result <;> rfl
  | encrypt result => cases result <;> rfl
  | decrypt result => cases result <;> rfl
  | clear =>
    rw [BaesMethod.script, Baes.clear, run_bind_of_some (clearBlock_run w (n, .aesdataEnc)),
      run_bind_of_some (clearBlock_run w (n, .aesdataDec))]
    rfl
  | other => rfl

theorem keyPair_run (w : World ν) (n : Nat) (m : KeyPairMethod) :
    ((m.script n).run w).2 = m.after w n := by
  cases m with
  | initKeyPair result =>
    rw [KeyPairMethod.script, KeyPair.initKeyPair, run_bind_of_some (load_run w (n, .keyPair)),
      run_bind_of_some (alloc_run w .table), if_neg (by rw [not_eq_object]; exact Bool.false_ne_true)]
    cases result <;> rfl
  | initKeyPairFromFile result => cases result <;> rfl
  | clear =>
    rw [KeyPairMethod.script, KeyPair.clear, run_bind_of_some (clearBlock_run w (n, .keyPair))]
    rfl
  | other => rfl

theorem step_eq (w : World ν) (call : Call ν) : step w call = call.after w := by
  cases call with
  | newGd => rfl
  | newBaes => rfl
  | newKeyPair pair =>
    cases pair with
    | boolean b => cases b <;> rfl
    | _ => rfl
  | native kind => rfl
  | gd n m => rw [step, Call.script, method_run, gd_run, Call.after]
  | baes n m => rw [step, Call.script, method_run, baes_run, Call.after]
  | keyPair n m => rw [step, Call.script, method_run, keyPair_run, Call.after]

/-- The wrapper whose method is called. -/
def Call.wrapper? : Call ν → Option (Nat × Class)
  | gd n _ => some (n, .gd)
  | baes n _ => some (n, .baes)
  | keyPair n _ => some (n, .keyPair)
  | _ => none

end Steps

end Bacteria.Scripts
