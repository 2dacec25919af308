/-!
# `Backplane.Text.Numeral`: decimal numerals of bounded integers

A numeral is an optional sign and at least one ASCII digit; leading zeros
are allowed, blanks and separators are not. A value out of range is no
numeral of its type.
-/

set_option autoImplicit false

namespace Backplane.Text

/-- The largest value of an unsigned 64-bit integer. -/
def maxUnsigned : Nat := 18446744073709551615

/-- Whether an integer fits a signed 64-bit word. -/
def fitsSigned (n : Int) : Bool := -9223372036854775808 ≤ n && n ≤ 9223372036854775807

/-- The value of an ASCII digit. -/
def digit? (c : Char) : Option Nat :=
  if '0' ≤ c ∧ c ≤ '9' then some (c.toNat - '0'.toNat) else none

/-- The value of a run of digits that follows a number. -/
def digitsFrom? (acc : Nat) : List Char → Option Nat
  | [] => some acc
  | c :: rest => (digit? c).bind fun d => digitsFrom? (10 * acc + d) rest

/-- The value of a non-empty run of digits. -/
def natOfDigits? : List Char → Option Nat
  | [] => none
  | cs => digitsFrom? 0 cs

/-- An unsigned 64-bit numeral, with an optional plus sign. -/
def unsigned? (cs : List Char) : Option Nat :=
  let value? := match cs with
    | '+' :: rest => natOfDigits? rest
    | _ => natOfDigits? cs
  value?.filter (· ≤ maxUnsigned)

/-- A signed 64-bit numeral, with an optional sign. -/
def signed? (cs : List Char) : Option Int :=
  let value? : Option Int := match cs with
    | '+' :: rest => (natOfDigits? rest).map Int.ofNat
    | '-' :: rest => (natOfDigits? rest).map fun n => -Int.ofNat n
    | _ => (natOfDigits? cs).map Int.ofNat
  value?.filter fitsSigned

end Backplane.Text
