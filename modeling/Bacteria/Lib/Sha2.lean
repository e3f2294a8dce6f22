/-
**SHA-256 and SHA-512.**

* `Params` — what sets the two apart: the size of a word, the number of rounds, the rotations.
* `compress` — one block: a window of sixteen words moves along as the rounds consume it.
* `digest` — of the padded message; `Params.sha256`, `Params.sha512`.
* `digest_length` — how many bytes that is.

The constants of SHA-256 are the upper halves of those of SHA-512.
-/

import Bacteria.Lib.CString
import Mathlib.Algebra.Order.Ring.Int

namespace Clib

namespace Sha2

/-- The constants of the rounds. -/
def constants : List Nat :=
  [0x428a2f98d728ae22, 0x7137449123ef65cd, 0xb5c0fbcfec4d3b2f, 0xe9b5dba58189dbbc,
    0x3956c25bf348b538, 0x59f111f1b605d019, 0x923f82a4af194f9b, 0xab1c5ed5da6d8118,
    0xd807aa98a3030242, 0x12835b0145706fbe, 0x243185be4ee4b28c, 0x550c7dc3d5ffb4e2,
    0x72be5d74f27b896f, 0x80deb1fe3b1696b1, 0x9bdc06a725c71235, 0xc19bf174cf692694,
    0xe49b69c19ef14ad2, 0xefbe4786384f25e3, 0x0fc19dc68b8cd5b5, 0x240ca1cc77ac9c65,
    0x2de92c6f592b0275, 0x4a7484aa6ea6e483, 0x5cb0a9dcbd41fbd4, 0x76f988da831153b5,
    0x983e5152ee66dfab, 0xa831c66d2db43210, 0xb00327c898fb213f, 0xbf597fc7beef0ee4,
    0xc6e00bf33da88fc2, 0xd5a79147930aa725, 0x06ca6351e003826f, 0x142929670a0e6e70,
    0x27b70a8546d22ffc, 0x2e1b21385c26c926, 0x4d2c6dfc5ac42aed, 0x53380d139d95b3df,
    0x650a73548baf63de, 0x766a0abb3c77b2a8, 0x81c2c92e47edaee6, 0x92722c851482353b,
    0xa2bfe8a14cf10364, 0xa81a664bbc423001, 0xc24b8b70d0f89791, 0xc76c51a30654be30,
    0xd192e819d6ef5218, 0xd69906245565a910, 0xf40e35855771202a, 0x106aa07032bbd1b8,
    0x19a4c116b8d2d0c8, 0x1e376c085141ab53, 0x2748774cdf8eeb99, 0x34b0bcb5e19b48a8,
    0x391c0cb3c5c95a63, 0x4ed8aa4ae3418acb, 0x5b9cca4f7763e373, 0x682e6ff3d6b2b8a3,
    0x748f82ee5defb2fc, 0x78a5636f43172f60, 0x84c87814a1f0ab72, 0x8cc702081a6439ec,
    0x90befffa23631e28, 0xa4506cebde82bde9, 0xbef9a3f7b2c67915, 0xc67178f2e372532b,
    0xca273eceea26619c, 0xd186b8c721c0c207, 0xeada7dd6cde0eb1e, 0xf57d4f7fee6ed178,
    0x06f067aa72176fba, 0x0a637dc5a2c898a6, 0x113f9804bef90dae, 0x1b710b35131c471b,
    0x28db77f523047d84, 0x32caab7b40c72493, 0x3c9ebe0a15c9bebc, 0x431d67c49c100d4c,
    0x4cc5d4becb3e42b6, 0x597f299cfc657e2a, 0x5fcb6fab3ad6faec, 0x6c44198c4a475817]

/-- What sets the two functions apart. -/
structure Params where
  /-- The bytes of a word. -/
  wordSize : Nat
  rounds : Nat
  /-- Three rotations. -/
  bigA : Nat × Nat × Nat
  bigE : Nat × Nat × Nat
  /-- Two rotations and a shift. -/
  smallLow : Nat × Nat × Nat
  smallHigh : Nat × Nat × Nat

/-- Eight words. -/
structure Words where
  a : Nat
  b : Nat
  c : Nat
  d : Nat
  e : Nat
  f : Nat
  g : Nat
  h : Nat

section Hashing

variable (p : Params)

def modulus : Nat := 2 ^ (8 * p.wordSize)

def add (x y : Nat) : Nat := (x + y) % modulus p

def rotate (x count : Nat) : Nat := (x >>> count ||| x <<< (8 * p.wordSize - count)) % modulus p

/-- Three rotations of a word. -/
def big (by3 : Nat × Nat × Nat) (x : Nat) : Nat :=
  rotate p x by3.1 ^^^ rotate p x by3.2.1 ^^^ rotate p x by3.2.2

/-- Two rotations and a shift of a word. -/
def small (by3 : Nat × Nat × Nat) (x : Nat) : Nat :=
  rotate p x by3.1 ^^^ rotate p x by3.2.1 ^^^ x >>> by3.2.2

def choose (x y z : Nat) : Nat := (x &&& y) ^^^ ((modulus p - 1 - x) &&& z)

def majority (x y z : Nat) : Nat := (x &&& y) ^^^ (x &&& z) ^^^ (y &&& z)

/-- One round: the first word of the window is used up, and the next one joins it. -/
def round (s : Words × List Nat) (constant : Nat) : Words × List Nat :=
  let (w, window) := s
  let t1 := add p (w.h + big p p.bigE w.e + choose p w.e w.f w.g) (constant + window.getD 0 0)
  let t2 := add p (big p p.bigA w.a) (majority w.a w.b w.c)
  let next := add p (small p p.smallHigh (window.getD 14 0) + window.getD 9 0)
    (small p p.smallLow (window.getD 1 0) + window.getD 0 0)
  (⟨add p t1 t2, w.a, w.b, w.c, add p w.d t1, w.e, w.f, w.g⟩, window.drop 1 ++ [next])

/-- The constants of so many bytes. -/
def truncated (constant : Nat) : Nat := constant >>> (64 - 8 * p.wordSize)

/-- A number from its bytes, the high one first. -/
def number (bytes : Bytes) : Nat := bytes.foldl (fun value b => 256 * value + b.toNat) 0

/-- The bytes of a number, the high one first. -/
def numberBytes (count value : Nat) : Bytes :=
  (List.range count).reverse.map fun index => UInt8.ofNat (value / 256 ^ index)

/-- The words of a block. -/
def wordsOf (block : Bytes) : List Nat :=
  (List.range 16).map fun index => number ((block.drop (p.wordSize * index)).take p.wordSize)

/-- One block. -/
def compress (w : Words) (block : Bytes) : Words :=
  let s := ((constants.take p.rounds).map (truncated p)).foldl (round p) (w, wordsOf p block)
  ⟨add p w.a s.1.a, add p w.b s.1.b, add p w.c s.1.c, add p w.d s.1.d, add p w.e s.1.e,
    add p w.f s.1.f, add p w.g s.1.g, add p w.h s.1.h⟩

/-- Where the first block starts. -/
def initial : Words :=
  ⟨truncated p 0x6a09e667f3bcc908, truncated p 0xbb67ae8584caa73b, truncated p 0x3c6ef372fe94f82b,
    truncated p 0xa54ff53a5f1d36f1, truncated p 0x510e527fade682d1, truncated p 0x9b05688c2b3e6c1f,
    truncated p 0x1f83d9abfb41bd6b, truncated p 0x5be0cd19137e2179⟩

/-- The message, a bit, zeroes up to whole blocks, and the length in bits. -/
def padded (message : Bytes) : Bytes :=
  let size := 16 * p.wordSize
  let zeroes := (size - (message.length + 1 + 2 * p.wordSize) % size) % size
  message ++ 0x80 :: List.replicate zeroes 0 ++ numberBytes (2 * p.wordSize) (8 * message.length)

/-- The hash of a message. -/
def digest (message : Bytes) : Bytes :=
  let text := padded p message
  let w := (List.range (text.length / (16 * p.wordSize))).foldl
    (fun w index => compress p w ((text.drop (16 * p.wordSize * index)).take (16 * p.wordSize)))
    (initial p)
  [w.a, w.b, w.c, w.d, w.e, w.f, w.g, w.h].flatMap (numberBytes p.wordSize)

theorem numberBytes_length (count value : Nat) : (numberBytes count value).length = count := by
  rw [numberBytes, List.length_map, List.length_reverse, List.length_range]

/-- **The length of a hash**: eight words. -/
theorem digest_length (message : Bytes) : (digest p message).length = 8 * p.wordSize := by
  simp only [digest, List.flatMap_cons, List.flatMap_nil, List.length_append, numberBytes_length,
    List.length_nil]
  omega

end Hashing

/-- SHA-256. -/
def Params.sha256 : Params := ⟨4, 64, (2, 13, 22), (6, 11, 25), (7, 18, 3), (17, 19, 10)⟩

/-- SHA-512. -/
def Params.sha512 : Params := ⟨8, 80, (28, 34, 39), (14, 18, 41), (1, 8, 7), (19, 61, 6)⟩

set_option maxRecDepth 10000 in
example : (digest .sha256 (ascii "abc")).take 4 = [0xba, 0x78, 0x16, 0xbf] ∧
    (digest .sha512 (ascii "abc")).take 4 = [0xdd, 0xaf, 0x35, 0xa1] := by decide +kernel

end Sha2

end Clib
