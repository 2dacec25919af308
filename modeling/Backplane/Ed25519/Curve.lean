import Backplane.Ed25519.Field

/-!
# `Backplane.Ed25519.Curve`: points of the twisted Edwards curve

Points of `-x² + y² = 1 + d x² y²` in extended coordinates, their group
law, and their written form of 32 bytes: `y` in little-endian order with
the sign of `x` in the top bit.
-/

set_option autoImplicit false

namespace Backplane.Ed25519

open Backplane.Ed25519.Field (ofNat)

/-- The number that bytes write, the low one first. -/
def ofLittleEndian (bytes : List UInt8) : Nat :=
  bytes.foldr (fun b n => b.toNat + 256 * n) 0

/-- The `width` low bytes of a number, the low one first. -/
def littleEndian : Nat → Nat → List UInt8
  | 0, _ => []
  | width + 1, n => UInt8.ofNat (n % 256) :: littleEndian width (n / 256)

@[simp] theorem length_littleEndian (width n : Nat) : (littleEndian width n).length = width := by
  induction width generalizing n with
  | zero => rfl
  | succ width ih => simp [littleEndian, ih]

/-- A point `(x / z, y / z)` with `t = x y / z`. -/
structure Point where
  x : Field
  y : Field
  z : Field
  t : Field

namespace Point

/-- The constant of the curve. -/
def d : Field := -(ofNat 121665) * (ofNat 121666).inverse

/-- The neutral point `(0, 1)`. -/
def zero : Point := ⟨ofNat 0, ofNat 1, ofNat 1, ofNat 0⟩

/-- The sum of two points; the formula has no exceptions. -/
def add (p q : Point) : Point :=
  let a := (p.y - p.x) * (q.y - q.x)
  let b := (p.y + p.x) * (q.y + q.x)
  let c := p.t * (ofNat 2 * d) * q.t
  let e := ofNat 2 * p.z * q.z
  ⟨(b - a) * (e - c), (e + c) * (b + a), (e - c) * (e + c), (b - a) * (b + a)⟩

/-- The opposite point. -/
def neg (p : Point) : Point := ⟨-p.x, p.y, p.z, -p.t⟩

/-- A multiple by doubling and adding. -/
def scale (n : Nat) (p : Point) : Point :=
  if _h : n = 0 then zero
  else
    let q := scale (n / 2) (p.add p)
    if n % 2 = 1 then p.add q else q
termination_by n
decreasing_by omega

/-- The written form of a point. -/
def encode (p : Point) : List UInt8 :=
  let w := p.z.inverse
  let x := p.x * w
  let y := p.y * w
  littleEndian 32 (y.val + if x.isNegative then Nat.pow 2 255 else 0)

/-- The point that 32 bytes write. The coordinate is read modulo the
prime, and a sign on a zero `x` is without effect. -/
def decode? (bytes : List UInt8) : Option Point :=
  if bytes.length ≠ 32 then none
  else
    let n := ofLittleEndian bytes
    let y := ofNat (n % Nat.pow 2 255)
    let u := y * y - ofNat 1
    let v := d * (y * y) + ofNat 1
    (Field.sqrtRatio? u v).map fun r =>
      let x := if n < Nat.pow 2 255 then r else -r
      ⟨x, y, ofNat 1, x * y⟩

/-- The generator, whose `y` is four fifths and whose `x` is even. -/
def base : Point :=
  let x := ofNat 15112221349535400772501151409588531511454012693041857206046113283949847762202
  let y := ofNat 46316835694926478169428394003475163141307993866256225615783033603165251855960
  ⟨x, y, ofNat 1, x * y⟩

/-- The order of the generator. -/
def order : Nat := Nat.pow 2 252 + 27742317777372353535851937790883648493

end Point

end Backplane.Ed25519
