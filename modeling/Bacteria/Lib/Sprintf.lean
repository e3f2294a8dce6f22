/-
**`sprintf` into a block.**

* `format` — the text `sprintf` makes of a format with `%s`, `%d` and `%c` and its arguments.
* `sprintf` — the same, written with its terminator at the start of a block.
* `sprintf_inBounds` — it stays inside exactly if the text is shorter than the block.
-/

import Bacteria.Lib.Block
import Bacteria.Lib.Decimal

namespace Clib

/-- An argument behind the format. -/
inductive Arg where
  | string (text : CString)
  | int (n : Int)
  | char (c : Byte)

/-- The bytes a conversion makes of its argument, `none` for an argument of another type. -/
def conversion (spec : Byte) (arg : Arg) : Option Bytes :=
  match arg with
  | .string text => if spec = charByte 's' then some text.bytes else none
  | .int n => if spec = charByte 'd' then some (decimalInt n) else none
  | .char c => if spec = charByte 'c' then some [c] else none

/-- The bytes `sprintf` writes before its terminator. -/
def format : Bytes → List Arg → Option Bytes
  | [], _ => some []
  | b :: rest, args =>
    if b = charByte '%' then
      match rest, args with
      | spec :: rest, arg :: args =>
        (conversion spec arg).bind fun text => (format rest args).map (text ++ ·)
      | _, _ => none
    else (format rest args).map (b :: ·)

/-- `sprintf(block, fmt, args)`. -/
def Block.sprintf (block : Block) (fmt : Bytes) (args : List Arg) : Option Block :=
  (format fmt args).map fun text => block.write 0 (text ++ [0])

/-- `sizeof` of a string literal. -/
def sizeofLiteral (text : Bytes) : Nat := text.length + 1

/-- **A `sprintf` stays inside exactly if there is room for its text and a terminator.** -/
theorem sprintf_inBounds {size : Nat} {fmt : Bytes} {args : List Arg} {text : Bytes}
    (made : format fmt args = some text) {block : Block}
    (written : (Block.malloc size).sprintf fmt args = some block) :
    block.InBounds ↔ text.length + 1 ≤ size := by
  rw [Block.sprintf, made, Option.map_some] at written
  rw [← Option.some.inj written, Block.inBounds_write, List.length_append, List.length_singleton,
    Block.malloc_size, Nat.zero_add]
  exact ⟨fun inside => inside.2, fun room => ⟨Block.inBounds_malloc size, room⟩⟩

end Clib
