import Backplane.Digest.Blocks

/-!
# `Backplane.Digest.Sha1`: the 160-bit secure hash

Eighty rounds over blocks of sixteen 32-bit words, in four stages of
twenty with a mixing function and a constant each.
-/

set_option autoImplicit false

namespace Backplane.Digest.Sha1

/-- The five chaining words. -/
structure State where
  a : UInt32
  b : UInt32
  c : UInt32
  d : UInt32
  e : UInt32

/-- Rotates to the left. -/
def rotate (w : UInt32) (n : UInt32) : UInt32 := (w <<< n) ||| (w >>> (32 - n))

/-- The chaining words in front of the first block. -/
def start : State := ⟨0x67452301, 0xefcdab89, 0x98badcfe, 0x10325476, 0xc3d2e1f0⟩

/-- The schedule so far, newest word first, with `n` further words. -/
def extend : Nat → List UInt32 → List UInt32
  | 0, ws => ws
  | n + 1, ws =>
    let w := ws.getD 2 0 ^^^ ws.getD 7 0 ^^^ ws.getD 13 0 ^^^ ws.getD 15 0
    extend n (rotate w 1 :: ws)

/-- The eighty words of a block. -/
def schedule (block : List UInt32) : List UInt32 := (extend 64 block.reverse).reverse

/-- The mixing function and the constant of a round. -/
def stage (round : Nat) (b c d : UInt32) : UInt32 :=
  if round < 20 then ((b &&& c) ||| (~~~b &&& d)) + 0x5a827999
  else if round < 40 then (b ^^^ c ^^^ d) + 0x6ed9eba1
  else if round < 60 then ((b &&& c) ||| (b &&& d) ||| (c &&& d)) + 0x8f1bbcdc
  else (b ^^^ c ^^^ d) + 0xca62c1d6

/-- One round. -/
def step (s : State) (w : UInt32 × Nat) : State :=
  ⟨rotate s.a 5 + stage w.2 s.b s.c s.d + s.e + w.1, s.a, rotate s.b 30, s.c, s.d⟩

/-- Folds one block into the chaining words. -/
def compress (s : State) (block : List UInt32) : State :=
  let t := (schedule block).zipIdx.foldl step s
  ⟨s.a + t.a, s.b + t.b, s.c + t.c, s.d + t.d, s.e + t.e⟩

/-- The twenty bytes of a message's hash. -/
def hash (message : List UInt8) : List UInt8 :=
  let blocks := (wordBlocks 64 8 4 message).map fun b => b.map UInt32.ofNat
  let s := blocks.foldl compress start
  [s.a, s.b, s.c, s.d, s.e].flatMap fun w => bigEndian 4 w.toNat

end Backplane.Digest.Sha1
