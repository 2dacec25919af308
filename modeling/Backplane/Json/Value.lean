import Backplane.Text.Numeral

/-!
# `Backplane.Json.Value`: JSON values

The values that messages and client attributes carry. An integer is kept
as its value and any other number as it was written, because `1.0` and
`1` are different values here.
-/

set_option autoImplicit false

namespace Backplane

/-- A number. -/
inductive Json.Number where
  /-- A literal without fraction and exponent. -/
  | integer (n : Int)
  /-- Any other literal, as written. -/
  | decimal (literal : String)
deriving Repr, DecidableEq

/-- A JSON value. The members of an object stand in ascending order of
their names. -/
inductive Json where
  | null
  | bool (b : Bool)
  | number (n : Json.Number)
  | string (s : String)
  | array (items : List Json)
  | object (members : List (String × Json))
deriving Repr, BEq, Inhabited

namespace Json

/-- An integer. -/
def ofInt (n : Int) : Json := .number (.integer n)

/-- The text of a string value. -/
def text? : Json → Option String
  | .string s => some s
  | _ => none

/-- The value as a signed 64-bit integer; a numeral in a string counts. -/
def signed? : Json → Option Int
  | .number (.integer n) => if Text.fitsSigned n then some n else none
  | .string s => Text.signed? s.toList
  | _ => none

/-- The value of a member. -/
def member? (name : String) : Json → Option Json
  | .object members => members.lookup name
  | _ => none

end Json

end Backplane
