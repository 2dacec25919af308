import Backplane.Text.Hex

/-!
# `Backplane.Access.ClientId`: fresh client ids

A client that comes without an id is given one of random bytes, written
as a random universally unique identifier: thirty-two hexadecimal digits
in five groups, with the version and the variant in two fixed places.
-/

set_option autoImplicit false

namespace Backplane.Access.ClientId

/-- The bytes with version 4 and variant 1 in their places. -/
def marked (random : List UInt8) : List UInt8 :=
  random.mapIdx fun i b =>
    if i = 6 then b &&& 0x0f ||| 0x40
    else if i = 8 then b &&& 0x3f ||| 0x80
    else b

/-- The lengths of the groups in bytes. -/
def groupSizes : List Nat := [4, 2, 2, 2, 6]

/-- Bytes in groups of given lengths. -/
def groups : List Nat → List UInt8 → List (List UInt8)
  | [], _ => []
  | n :: rest, bytes => bytes.take n :: groups rest (bytes.drop n)

/-- The client id of random bytes. -/
def ofRandom (random : List UInt8) : String :=
  String.intercalate "-" ((groups groupSizes (marked random)).map Text.Hex.encode)

end Backplane.Access.ClientId
