/-!
# `Backplane.Text.Hex`: bytes as pairs of hexadecimal digits

The main statements:

* `decode_encode`: the digits of a byte string read back.
-/

set_option autoImplicit false

namespace Backplane.Text.Hex

/-- The lower-case digit of a value below sixteen. -/
def digitChar (n : Nat) : Char := if n < 10 then Char.ofNat (48 + n) else Char.ofNat (87 + n)

/-- The value of a hexadecimal digit in either case. -/
def digit? (c : Char) : Option Nat :=
  let n := c.toNat
  if 48 ≤ n ∧ n ≤ 57 then some (n - 48)
  else if 97 ≤ n ∧ n ≤ 102 then some (n - 87)
  else if 65 ≤ n ∧ n ≤ 70 then some (n - 55)
  else none

/-- Two digits for each byte, the high one first. -/
def encodeChars (bytes : List UInt8) : List Char :=
  bytes.flatMap fun b => [digitChar (b.toNat / 16), digitChar (b.toNat % 16)]

/-- The lower-case hexadecimal text of a byte string. -/
def encode (bytes : List UInt8) : String := String.ofList (encodeChars bytes)

/-- The bytes of a text of digit pairs. -/
def decodeChars? : List Char → Option (List UInt8)
  | [] => some []
  | [_] => none
  | a :: b :: rest => do
    let hi ← digit? a
    let lo ← digit? b
    let bytes ← decodeChars? rest
    return UInt8.ofNat (16 * hi + lo) :: bytes

/-- The bytes that a hexadecimal text writes. -/
def decode? (s : String) : Option (List UInt8) := decodeChars? s.toList

theorem digit?_digitChar : ∀ n < 16, digit? (digitChar n) = some n := by decide

/-- The digits of a byte string read back. -/
theorem decode_encode (bytes : List UInt8) : decodeChars? (encodeChars bytes) = some bytes := by
  induction bytes with
  | nil => rfl
  | cons b rest ih =>
    have hb : b.toNat < 256 := b.toNat_lt
    have e : encodeChars (b :: rest)
        = digitChar (b.toNat / 16) :: digitChar (b.toNat % 16) :: encodeChars rest := rfl
    have hv : UInt8.ofNat (16 * (b.toNat / 16) + b.toNat % 16) = b := by
      rw [Nat.div_add_mod]; exact UInt8.ofNat_toNat
    rw [e, decodeChars?, digit?_digitChar _ (by omega), digit?_digitChar _ (by omega), ih]
    simp only [Option.bind_eq_bind, Option.bind_some, hv]
    rfl

end Backplane.Text.Hex
