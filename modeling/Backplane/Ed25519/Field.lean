/-!
# `Backplane.Ed25519.Field`: the prime field of the curve

Arithmetic modulo `2 ^ 255 - 19`, with square roots of quotients, which
are what recovering a point from its written form needs.
-/

set_option autoImplicit false

namespace Backplane.Ed25519

/-- The prime `2 ^ 255 - 19`. -/
def prime : Nat := Nat.pow 2 255 - 19

theorem prime_pos : 0 < prime := Nat.le_of_ble_eq_true rfl

/-- A residue modulo the prime. -/
abbrev Field := Fin prime

namespace Field

/-- The residue of a number. -/
def ofNat (n : Nat) : Field := ⟨n % prime, Nat.mod_lt n prime_pos⟩

/-- A power by repeated squaring. -/
def power (x : Field) (n : Nat) : Field :=
  if _h : n = 0 then ofNat 1
  else
    let r := power (x * x) (n / 2)
    if n % 2 = 1 then x * r else r
termination_by n
decreasing_by omega

/-- The inverse of a residue; zero has zero. -/
def inverse (x : Field) : Field := x.power (prime - 2)

/-- A square root of minus one. -/
def sqrtMinusOne : Field := (ofNat 2).power ((prime - 1) / 4)

/-- A residue counts as negative if it is odd. -/
def isNegative (x : Field) : Bool := x.val % 2 = 1

/-- The root of `u / v` that is not negative, if the quotient is a
square. -/
def sqrtRatio? (u v : Field) : Option Field :=
  let r := u * v.power 3 * (u * v.power 7).power ((prime - 5) / 8)
  let root? :=
    if v * r * r = u then some r
    else if v * r * r = -u then some (r * sqrtMinusOne)
    else none
  root?.map fun x => if x.isNegative then -x else x

end Field

end Backplane.Ed25519
