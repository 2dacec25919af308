/-!
# `Backplane.Text.Base64`: bytes as base-64 text

Two alphabets, with or without padding. Decoding is strict: it accepts
the text that encoding writes and nothing else, and it names the first
thing that is wrong. The main statements:

* `octets_sextets`: regrouping bytes in six-bit values and back is the
  identity.
* `value?_symbol`: a symbol stands for the value it was chosen for.
-/

set_option autoImplicit false

namespace Backplane.Text.Base64

/-- The 64 symbols in use. -/
inductive Alphabet where
  /-- Values 62 and 63 are written `+` and `/`. -/
  | standard
  /-- Values 62 and 63 are written `-` and `_`, which need no escape in an
  address. -/
  | url
deriving Repr, DecidableEq

/-- Whether `=` fills up the last group of four symbols. -/
inductive Padding where
  | never
  | always
deriving Repr, DecidableEq

/-- What is wrong with a text. Offsets count bytes from the front. -/
inductive DecodeError where
  /-- A byte that is no symbol, or padding in front of its place. -/
  | invalidByte (offset : Nat) (byte : UInt8)
  /-- A last group of a single symbol. -/
  | invalidLength (length : Nat)
  /-- A last symbol with bits that no byte takes. -/
  | invalidLastSymbol (offset : Nat) (byte : UInt8)
  /-- Padding that is missing or not allowed. -/
  | invalidPadding
deriving Repr, DecidableEq

/-- The text of an error. -/
def DecodeError.message : DecodeError → String
  | invalidByte offset byte =>
    "Invalid symbol " ++ toString byte.toNat ++ ", offset " ++ toString offset ++ "."
  | invalidLength length => "Invalid input length: " ++ toString length
  | invalidLastSymbol offset byte =>
    "Invalid last symbol " ++ toString byte.toNat ++ ", offset " ++ toString offset ++ "."
  | invalidPadding => "Invalid padding"

/-- The symbol of a value below 64. -/
def Alphabet.symbol (α : Alphabet) (n : Nat) : Char :=
  if n < 26 then Char.ofNat (65 + n)
  else if n < 52 then Char.ofNat (71 + n)
  else if n < 62 then Char.ofNat (n - 4)
  else match α with
    | .standard => if n = 62 then '+' else '/'
    | .url => if n = 62 then '-' else '_'

/-- The value that a byte stands for. -/
def Alphabet.value? (α : Alphabet) (b : UInt8) : Option Nat :=
  let n := b.toNat
  if 65 ≤ n ∧ n ≤ 90 then some (n - 65)
  else if 97 ≤ n ∧ n ≤ 122 then some (n - 71)
  else if 48 ≤ n ∧ n ≤ 57 then some (n + 4)
  else match α with
    | .standard => if n = 43 then some 62 else if n = 47 then some 63 else none
    | .url => if n = 45 then some 62 else if n = 95 then some 63 else none

/-- A symbol stands for the value it was chosen for. -/
theorem value?_symbol (α : Alphabet) :
    ∀ n < 64, α.value? (UInt8.ofNat (α.symbol n).toNat) = some n := by
  cases α <;> decide

/-- Regroups bytes in six-bit values, the last one filled up with zeros. -/
def sextets : List UInt8 → List Nat
  | [] => []
  | [a] => [a.toNat / 4, a.toNat % 4 * 16]
  | [a, b] => [a.toNat / 4, a.toNat % 4 * 16 + b.toNat / 16, b.toNat % 16 * 4]
  | a :: b :: c :: rest =>
    a.toNat / 4 :: (a.toNat % 4 * 16 + b.toNat / 16) :: (b.toNat % 16 * 4 + c.toNat / 64)
      :: c.toNat % 64 :: sextets rest

/-- Regroups six-bit values in bytes and drops the bits that are left. -/
def octets : List Nat → List UInt8
  | [] => []
  | [_] => []
  | [a, b] => [UInt8.ofNat (a * 4 + b / 16)]
  | [a, b, c] => [UInt8.ofNat (a * 4 + b / 16), UInt8.ofNat (b % 16 * 16 + c / 4)]
  | a :: b :: c :: d :: rest =>
    UInt8.ofNat (a * 4 + b / 16) :: UInt8.ofNat (b % 16 * 16 + c / 4)
      :: UInt8.ofNat (c % 4 * 64 + d) :: octets rest

/-- Regrouping and grouping back is the identity. -/
theorem octets_sextets (bytes : List UInt8) : octets (sextets bytes) = bytes := by
  fun_induction sextets bytes with
  | case1 => rfl
  | case2 a =>
    have ha := a.toNat_lt
    simp only [octets, show a.toNat / 4 * 4 + a.toNat % 4 * 16 / 16 = a.toNat by omega,
      UInt8.ofNat_toNat]
  | case3 a b =>
    have ha := a.toNat_lt
    have hb := b.toNat_lt
    simp only [octets,
      show a.toNat / 4 * 4 + (a.toNat % 4 * 16 + b.toNat / 16) / 16 = a.toNat by omega,
      show (a.toNat % 4 * 16 + b.toNat / 16) % 16 * 16 + b.toNat % 16 * 4 / 4 = b.toNat by omega,
      UInt8.ofNat_toNat]
  | case4 a b c rest ih =>
    have ha := a.toNat_lt
    have hb := b.toNat_lt
    have hc := c.toNat_lt
    simp only [octets, ih,
      show a.toNat / 4 * 4 + (a.toNat % 4 * 16 + b.toNat / 16) / 16 = a.toNat by omega,
      show (a.toNat % 4 * 16 + b.toNat / 16) % 16 * 16 + (b.toNat % 16 * 4 + c.toNat / 64) / 4
        = b.toNat by omega,
      show (b.toNat % 16 * 4 + c.toNat / 64) % 4 * 64 + c.toNat % 64 = c.toNat by omega,
      UInt8.ofNat_toNat]

/-- The number of `=` behind the last symbol. -/
def paddingLength (bytes : List UInt8) : Nat := (3 - bytes.length % 3) % 3

/-- The text of a byte string as a list of symbols. -/
def encodeChars (α : Alphabet) (p : Padding) (bytes : List UInt8) : List Char :=
  (sextets bytes).map α.symbol ++
    match p with
    | .never => []
    | .always => List.replicate (paddingLength bytes) '='

/-- The text of a byte string. -/
def encode (α : Alphabet) (p : Padding) (bytes : List UInt8) : String :=
  String.ofList (encodeChars α p bytes)

/-- The byte of `=`. -/
def padByte : UInt8 := 61

/-- The values of a run of symbols that starts at an offset; the first
byte that is no symbol is the error. -/
def values (α : Alphabet) (offset : Nat) : List UInt8 → Except DecodeError (List Nat)
  | [] => .ok []
  | b :: rest =>
    match α.value? b with
    | none => .error (.invalidByte offset b)
    | some v => (values α (offset + 1) rest).map (v :: ·)

/-- What the last group holds. -/
structure Tail where
  /-- The values in front of the padding. -/
  values : List Nat
  /-- The last symbol. -/
  last : UInt8
  /-- The number of padding bytes. -/
  pads : Nat
deriving Repr, DecidableEq

/-- Reads the last group, of at most four bytes, at place `i` of the
group. Padding stands behind two symbols at the earliest and is followed
by nothing else. -/
def readTail (α : Alphabet) (start : Nat) (i : Nat) (t : Tail) :
    List UInt8 → Except DecodeError Tail
  | [] => .ok t
  | b :: rest =>
    if b = padByte then
      if i < 2 then .error (.invalidByte (start + i) b)
      else readTail α start (i + 1) { t with pads := t.pads + 1 } rest
    else if 0 < t.pads then .error (.invalidByte (start + i - t.pads) padByte)
    else match α.value? b with
      | none => .error (.invalidByte (start + i) b)
      | some v => readTail α start (i + 1) { t with values := t.values ++ [v], last := b } rest

/-- Whether the last value has bits that no byte takes. -/
def hasSpareBits : List Nat → Bool
  | [_, b] => b % 16 ≠ 0
  | [_, _, c] => c % 4 ≠ 0
  | _ => false

/-- Checks the last group: its length, its padding and its spare bits. -/
def checkTail (p : Padding) (start : Nat) (t : Tail) : Except DecodeError (List Nat) :=
  let n := t.values.length
  if n < 2 then .error (.invalidLength (start + n))
  else
    let padded : Bool := match p with
      | .never => t.pads = 0
      | .always => (t.pads + n) % 4 = 0
    if !padded then .error .invalidPadding
    else if hasSpareBits t.values then .error (.invalidLastSymbol (start + n - 1) t.last)
    else .ok t.values

/-- The length of the text in front of the last group, which has one to
four bytes. -/
def bodyLength (length : Nat) : Nat := (length - 1) / 4 * 4

/-- A single byte behind whole groups that is neither a symbol nor
padding. -/
def strayByte? (α : Alphabet) (bytes : List UInt8) : Option UInt8 :=
  if bytes.length % 4 = 1 then
    bytes.getLast?.filter fun b => b ≠ padByte && (α.value? b).isNone
  else none

/-- The bytes that a text stands for. A stray byte at the very end is
reported before any other error; then the first byte at fault. -/
def decode (α : Alphabet) (p : Padding) (bytes : List UInt8) :
    Except DecodeError (List UInt8) :=
  if bytes.isEmpty then .ok []
  else match strayByte? α bytes with
    | some b => .error (.invalidByte (bytes.length - 1) b)
    | none => do
      let start := bodyLength bytes.length
      let body ← values α 0 (bytes.take start)
      let t ← readTail α start 0 ⟨[], 0, 0⟩ (bytes.drop start)
      let rest ← checkTail p start t
      return octets (body ++ rest)

end Backplane.Text.Base64
