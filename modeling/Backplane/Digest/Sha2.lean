import Backplane.Digest.Blocks

/-!
# `Backplane.Digest.Sha2`: the 256-bit and 512-bit secure hashes

Both hashes are one construction over words of 32 or 64 bits; a `Variant`
holds what differs: the word, the rotations, the constants and the first
chaining words.
-/

set_option autoImplicit false

namespace Backplane.Digest.Sha2

/-- What one member of the family chooses. -/
structure Variant (ω : Type) where
  /-- Bytes in a word. -/
  wordBytes : Nat
  ofNat : Nat → ω
  toNat : ω → Nat
  /-- Mixes the first chaining word of a round. -/
  bigSigma0 : ω → ω
  /-- Mixes the fifth chaining word of a round. -/
  bigSigma1 : ω → ω
  /-- Mixes the fifteenth word back in the schedule. -/
  smallSigma0 : ω → ω
  /-- Mixes the second word back in the schedule. -/
  smallSigma1 : ω → ω
  /-- One constant for each round. -/
  constants : List ω
  /-- The chaining words in front of the first block. -/
  start : List ω

/-- The eight chaining words. -/
structure State (ω : Type) where
  a : ω
  b : ω
  c : ω
  d : ω
  e : ω
  f : ω
  g : ω
  h : ω

variable {ω : Type} [Add ω] [AndOp ω] [XorOp ω] [Complement ω]

/-- The chaining words as a list. -/
def State.words (s : State ω) : List ω := [s.a, s.b, s.c, s.d, s.e, s.f, s.g, s.h]

/-- The state of a list of eight words. -/
def State.ofWords (z : ω) (ws : List ω) : State ω :=
  ⟨ws.getD 0 z, ws.getD 1 z, ws.getD 2 z, ws.getD 3 z,
   ws.getD 4 z, ws.getD 5 z, ws.getD 6 z, ws.getD 7 z⟩

/-- The schedule so far, newest word first, with `n` further words. -/
def extend (v : Variant ω) : Nat → List ω → List ω
  | 0, ws => ws
  | n + 1, ws =>
    let back := fun i => ws.getD i (v.ofNat 0)
    extend v n ((v.smallSigma1 (back 1) + back 6 + v.smallSigma0 (back 14) + back 15) :: ws)

/-- One word for each round. -/
def schedule (v : Variant ω) (block : List ω) : List ω :=
  (extend v (v.constants.length - 16) block.reverse).reverse

/-- One round with its constant and its word. -/
def step (v : Variant ω) (s : State ω) (kw : ω × ω) : State ω :=
  let choice := (s.e &&& s.f) ^^^ (~~~s.e &&& s.g)
  let majority := (s.a &&& s.b) ^^^ (s.a &&& s.c) ^^^ (s.b &&& s.c)
  let t₁ := s.h + v.bigSigma1 s.e + choice + kw.1 + kw.2
  let t₂ := v.bigSigma0 s.a + majority
  ⟨t₁ + t₂, s.a, s.b, s.c, s.d + t₁, s.e, s.f, s.g⟩

/-- Folds one block into the chaining words. -/
def compress (v : Variant ω) (s : State ω) (block : List ω) : State ω :=
  let t := (v.constants.zip (schedule v block)).foldl (step v) s
  State.ofWords (v.ofNat 0) ((s.words.zip t.words).map fun (x, y) => x + y)

/-- The hash of a message: eight words of bytes. -/
def hash (v : Variant ω) (message : List UInt8) : List UInt8 :=
  let blocks := (wordBlocks (16 * v.wordBytes) (2 * v.wordBytes) v.wordBytes message).map
    fun b => b.map v.ofNat
  let s := blocks.foldl (compress v) (State.ofWords (v.ofNat 0) v.start)
  s.words.flatMap fun w => bigEndian v.wordBytes (v.toNat w)

/-- Every hash has the bytes of eight words. -/
theorem length_hash (v : Variant ω) (message : List UInt8) :
    (hash v message).length = 8 * v.wordBytes := by
  simp only [hash, State.words, List.flatMap_cons, List.flatMap_nil, List.length_append,
    length_bigEndian, List.length_nil]
  omega

/-- Rotates a 32-bit word to the right. -/
def rotate32 (w n : UInt32) : UInt32 := (w >>> n) ||| (w <<< (32 - n))

/-- Rotates a 64-bit word to the right. -/
def rotate64 (w n : UInt64) : UInt64 := (w >>> n) ||| (w <<< (64 - n))

/-- The first bits of the fractional parts of the cube roots of the first
64 primes. -/
def constants256 : List UInt32 :=
  [0x428a2f98, 0x71374491, 0xb5c0fbcf, 0xe9b5dba5, 0x3956c25b, 0x59f111f1,
   0x923f82a4, 0xab1c5ed5, 0xd807aa98, 0x12835b01, 0x243185be, 0x550c7dc3,
   0x72be5d74, 0x80deb1fe, 0x9bdc06a7, 0xc19bf174, 0xe49b69c1, 0xefbe4786,
   0x0fc19dc6, 0x240ca1cc, 0x2de92c6f, 0x4a7484aa, 0x5cb0a9dc, 0x76f988da,
   0x983e5152, 0xa831c66d, 0xb00327c8, 0xbf597fc7, 0xc6e00bf3, 0xd5a79147,
   0x06ca6351, 0x14292967, 0x27b70a85, 0x2e1b2138, 0x4d2c6dfc, 0x53380d13,
   0x650a7354, 0x766a0abb, 0x81c2c92e, 0x92722c85, 0xa2bfe8a1, 0xa81a664b,
   0xc24b8b70, 0xc76c51a3, 0xd192e819, 0xd6990624, 0xf40e3585, 0x106aa070,
   0x19a4c116, 0x1e376c08, 0x2748774c, 0x34b0bcb5, 0x391c0cb3, 0x4ed8aa4a,
   0x5b9cca4f, 0x682e6ff3, 0x748f82ee, 0x78a5636f, 0x84c87814, 0x8cc70208,
   0x90befffa, 0xa4506ceb, 0xbef9a3f7, 0xc67178f2]

/-- The first bits of the fractional parts of the square roots of the
first eight primes. -/
def start256 : List UInt32 :=
  [0x6a09e667, 0xbb67ae85, 0x3c6ef372, 0xa54ff53a, 0x510e527f, 0x9b05688c,
   0x1f83d9ab, 0x5be0cd19]

/-- The member of 32-bit words. -/
def variant256 : Variant UInt32 where
  wordBytes := 4
  ofNat := UInt32.ofNat
  toNat := UInt32.toNat
  bigSigma0 w := rotate32 w 2 ^^^ rotate32 w 13 ^^^ rotate32 w 22
  bigSigma1 w := rotate32 w 6 ^^^ rotate32 w 11 ^^^ rotate32 w 25
  smallSigma0 w := rotate32 w 7 ^^^ rotate32 w 18 ^^^ (w >>> 3)
  smallSigma1 w := rotate32 w 17 ^^^ rotate32 w 19 ^^^ (w >>> 10)
  constants := constants256
  start := start256

/-- The first bits of the fractional parts of the cube roots of the first
80 primes. -/
def constants512 : List UInt64 :=
  [0x428a2f98d728ae22, 0x7137449123ef65cd, 0xb5c0fbcfec4d3b2f,
   0xe9b5dba58189dbbc, 0x3956c25bf348b538, 0x59f111f1b605d019,
   0x923f82a4af194f9b, 0xab1c5ed5da6d8118, 0xd807aa98a3030242,
   0x12835b0145706fbe, 0x243185be4ee4b28c, 0x550c7dc3d5ffb4e2,
   0x72be5d74f27b896f, 0x80deb1fe3b1696b1, 0x9bdc06a725c71235,
   0xc19bf174cf692694, 0xe49b69c19ef14ad2, 0xefbe4786384f25e3,
   0x0fc19dc68b8cd5b5, 0x240ca1cc77ac9c65, 0x2de92c6f592b0275,
   0x4a7484aa6ea6e483, 0x5cb0a9dcbd41fbd4, 0x76f988da831153b5,
   0x983e5152ee66dfab, 0xa831c66d2db43210, 0xb00327c898fb213f,
   0xbf597fc7beef0ee4, 0xc6e00bf33da88fc2, 0xd5a79147930aa725,
   0x06ca6351e003826f, 0x142929670a0e6e70, 0x27b70a8546d22ffc,
   0x2e1b21385c26c926, 0x4d2c6dfc5ac42aed, 0x53380d139d95b3df,
   0x650a73548baf63de, 0x766a0abb3c77b2a8, 0x81c2c92e47edaee6,
   0x92722c851482353b, 0xa2bfe8a14cf10364, 0xa81a664bbc423001,
   0xc24b8b70d0f89791, 0xc76c51a30654be30, 0xd192e819d6ef5218,
   0xd69906245565a910, 0xf40e35855771202a, 0x106aa07032bbd1b8,
   0x19a4c116b8d2d0c8, 0x1e376c085141ab53, 0x2748774cdf8eeb99,
   0x34b0bcb5e19b48a8, 0x391c0cb3c5c95a63, 0x4ed8aa4ae3418acb,
   0x5b9cca4f7763e373, 0x682e6ff3d6b2b8a3, 0x748f82ee5defb2fc,
   0x78a5636f43172f60, 0x84c87814a1f0ab72, 0x8cc702081a6439ec,
   0x90befffa23631e28, 0xa4506cebde82bde9, 0xbef9a3f7b2c67915,
   0xc67178f2e372532b, 0xca273eceea26619c, 0xd186b8c721c0c207,
   0xeada7dd6cde0eb1e, 0xf57d4f7fee6ed178, 0x06f067aa72176fba,
   0x0a637dc5a2c898a6, 0x113f9804bef90dae, 0x1b710b35131c471b,
   0x28db77f523047d84, 0x32caab7b40c72493, 0x3c9ebe0a15c9bebc,
   0x431d67c49c100d4c, 0x4cc5d4becb3e42b6, 0x597f299cfc657e2a,
   0x5fcb6fab3ad6faec, 0x6c44198c4a475817]

/-- The first bits of the fractional parts of the square roots of the
first eight primes. -/
def start512 : List UInt64 :=
  [0x6a09e667f3bcc908, 0xbb67ae8584caa73b, 0x3c6ef372fe94f82b,
   0xa54ff53a5f1d36f1, 0x510e527fade682d1, 0x9b05688c2b3e6c1f,
   0x1f83d9abfb41bd6b, 0x5be0cd19137e2179]

/-- The member of 64-bit words. -/
def variant512 : Variant UInt64 where
  wordBytes := 8
  ofNat := UInt64.ofNat
  toNat := UInt64.toNat
  bigSigma0 w := rotate64 w 28 ^^^ rotate64 w 34 ^^^ rotate64 w 39
  bigSigma1 w := rotate64 w 14 ^^^ rotate64 w 18 ^^^ rotate64 w 41
  smallSigma0 w := rotate64 w 1 ^^^ rotate64 w 8 ^^^ (w >>> 7)
  smallSigma1 w := rotate64 w 19 ^^^ rotate64 w 61 ^^^ (w >>> 6)
  constants := constants512
  start := start512

end Backplane.Digest.Sha2

namespace Backplane.Digest

/-- The 32 bytes of a message's 256-bit hash. -/
def sha256 (message : List UInt8) : List UInt8 := Sha2.hash Sha2.variant256 message

/-- The 64 bytes of a message's 512-bit hash. -/
def sha512 (message : List UInt8) : List UInt8 := Sha2.hash Sha2.variant512 message

@[simp] theorem length_sha256 (message : List UInt8) : (sha256 message).length = 32 :=
  Sha2.length_hash Sha2.variant256 message

@[simp] theorem length_sha512 (message : List UInt8) : (sha512 message).length = 64 :=
  Sha2.length_hash Sha2.variant512 message

end Backplane.Digest
