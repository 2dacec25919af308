import Backplane.Json.Value
import Backplane.Text.Hex

/-!
# `Backplane.Json.Token`: the tokens of a JSON text

A JSON text is read as bytes. Blanks between tokens are dropped, numbers
are checked against their grammar, and a string whose bytes or escapes
spell no text is a token all the same, because a reader that skips it
need not care. The main statements:

* `length_of_readPieces`, `length_of_span`: reading a token uses up input.
-/

set_option autoImplicit false

namespace Backplane.Json

/-- A token. A string that spells no text has none. -/
inductive Token where
  | beginArray
  | endArray
  | beginObject
  | endObject
  | comma
  | colon
  | null
  | bool (b : Bool)
  | number (n : Number)
  | string (s : Option String)
deriving Repr, DecidableEq

namespace Token

/-- A part of a string literal: a byte, or a 16-bit unit that was written
as an escape. -/
inductive Piece where
  | byte (b : UInt8)
  | unit (n : Nat)
deriving Repr, DecidableEq

/-- The byte of an escape of one letter. -/
def simpleEscape? (b : UInt8) : Option UInt8 :=
  if b = 0x22 ∨ b = 0x5C ∨ b = 0x2F then some b
  else if b = 0x62 then some 8
  else if b = 0x66 then some 12
  else if b = 0x6E then some 10
  else if b = 0x72 then some 13
  else if b = 0x74 then some 9
  else none

/-- The value of a byte that is a hexadecimal digit. -/
def hexDigit? (b : UInt8) : Option Nat := Text.Hex.digit? (Char.ofNat b.toNat)

/-- The value of four hexadecimal digits. -/
def unit? (a b c d : UInt8) : Option Nat := do
  let a ← hexDigit? a
  let b ← hexDigit? b
  let c ← hexDigit? c
  let d ← hexDigit? d
  return ((a * 16 + b) * 16 + c) * 16 + d

/-- The parts of a string literal up to its closing quote, and what
follows the quote. Control characters have to be escaped. -/
def readPieces : List UInt8 → Option (List Piece × List UInt8)
  | [] => none
  | 0x22 :: rest => some ([], rest)
  | 0x5C :: 0x75 :: a :: b :: c :: d :: rest =>
    match unit? a b c d, readPieces rest with
    | some n, some (pieces, tail) => some (.unit n :: pieces, tail)
    | _, _ => none
  | 0x5C :: e :: rest =>
    match simpleEscape? e, readPieces rest with
    | some b, some (pieces, tail) => some (.byte b :: pieces, tail)
    | _, _ => none
  | b :: rest =>
    if b < 0x20 ∨ b = 0x5C then none
    else match readPieces rest with
      | some (pieces, tail) => some (.byte b :: pieces, tail)
      | none => none

/-- The UTF-8 bytes of a code point. -/
def utf8 (n : Nat) : List UInt8 := (String.singleton (Char.ofNat n)).toUTF8.data.toList

/-- The bytes that the parts of a string spell. A high surrogate has to be
followed by a low one and a low one has to follow a high one. -/
def spell? : List Piece → Option (List UInt8)
  | [] => some []
  | .byte b :: rest => (spell? rest).map (b :: ·)
  | .unit hi :: .unit lo :: rest =>
    if 0xD800 ≤ hi ∧ hi < 0xDC00 then
      if 0xDC00 ≤ lo ∧ lo < 0xE000 then
        (spell? rest).map (utf8 (0x10000 + (hi - 0xD800) * 0x400 + (lo - 0xDC00)) ++ ·)
      else none
    else if 0xDC00 ≤ hi ∧ hi < 0xE000 then none
    else (spell? (.unit lo :: rest)).map (utf8 hi ++ ·)
  | .unit n :: rest =>
    if 0xD800 ≤ n ∧ n < 0xE000 then none else (spell? rest).map (utf8 n ++ ·)

/-- The text that the parts of a string spell. -/
def textOf? (pieces : List Piece) : Option String :=
  (spell? pieces).bind fun bytes => String.fromUTF8? (ByteArray.mk bytes.toArray)

/-- Whether a byte can stand in a number. -/
def isNumberByte (b : UInt8) : Bool :=
  (0x30 ≤ b && b ≤ 0x39) || b == 0x2D || b == 0x2B || b == 0x2E || b == 0x65 || b == 0x45

/-- Whether a character list is a non-empty run of digits. -/
def isDigits (cs : List Char) : Bool := !cs.isEmpty && cs.all Char.isDigit

/-- Whether an exponent is well-formed: nothing, or a letter, an optional
sign and digits. -/
def isExponent : List Char → Bool
  | [] => true
  | e :: '+' :: rest => (e = 'e' || e = 'E') && isDigits rest
  | e :: '-' :: rest => (e = 'e' || e = 'E') && isDigits rest
  | e :: rest => (e = 'e' || e = 'E') && isDigits rest

/-- Whether what follows the integer part of a number is well-formed. -/
def isFractionAndExponent : List Char → Bool
  | '.' :: rest =>
    isDigits (rest.takeWhile Char.isDigit) && isExponent (rest.dropWhile Char.isDigit)
  | rest => isExponent rest

/-- The number of a literal. A literal with a fraction or an exponent, or
a negative zero, is no integer. -/
def number? (literal : List Char) : Option Number :=
  let negative := literal.head? = some '-'
  let body := if negative then literal.drop 1 else literal
  let int := body.takeWhile Char.isDigit
  let rest := body.dropWhile Char.isDigit
  if !isDigits int || (int.head? = some '0' && int.length ≠ 1) then none
  else if rest.isEmpty then
    let n : Nat := int.foldl (fun n c => 10 * n + (c.toNat - 48)) 0
    if negative then
      if n = 0 then some (.decimal (String.ofList literal)) else some (.integer (-(n : Int)))
    else some (.integer n)
  else if isFractionAndExponent rest then some (.decimal (String.ofList literal))
  else none

/-- Whether a byte is a blank between tokens. -/
def isSpace (b : UInt8) : Bool := b == 0x20 || b == 0x0A || b == 0x0D || b == 0x09

theorem length_of_readPieces {s rest : List UInt8} {pieces : List Piece}
    (h : readPieces s = some (pieces, rest)) : rest.length < s.length := by
  fun_induction readPieces s generalizing pieces rest with
  | case1 => simp at h
  | case2 => simp only [Option.some.injEq, Prod.mk.injEq] at h; simp [← h.2]
  | case3 a b c d r n ps tail hr _ ih =>
    simp only [Option.some.injEq, Prod.mk.injEq] at h
    have := ih hr
    rw [← h.2]; simp only [List.length_cons]; omega
  | case4 => simp at h
  | case5 e r _ b ps tail hr _ ih =>
    simp only [Option.some.injEq, Prod.mk.injEq] at h
    have := ih hr
    rw [← h.2]; simp only [List.length_cons]; omega
  | case6 => simp at h
  | case7 => simp at h
  | case8 b r _ _ _ _ ps tail hr ih =>
    simp only [Option.some.injEq, Prod.mk.injEq] at h
    have := ih hr
    rw [← h.2]; simp only [List.length_cons]; omega
  | case9 => simp at h

theorem length_of_span (p : UInt8 → Bool) (s : List UInt8) :
    (s.dropWhile p).length ≤ s.length := by
  induction s with
  | nil => simp
  | cons b rest ih =>
    rw [List.dropWhile_cons]
    split
    · exact Nat.le_succ_of_le ih
    · exact Nat.le_refl _

/-- The tokens of a text; `none` where a token is ill-formed. -/
def scan? (s : List UInt8) : Option (List Token) :=
  match s with
  | [] => some []
  | b :: rest =>
    if isSpace b then scan? rest
    else if b = 0x5B then (scan? rest).map (.beginArray :: ·)
    else if b = 0x5D then (scan? rest).map (.endArray :: ·)
    else if b = 0x7B then (scan? rest).map (.beginObject :: ·)
    else if b = 0x7D then (scan? rest).map (.endObject :: ·)
    else if b = 0x2C then (scan? rest).map (.comma :: ·)
    else if b = 0x3A then (scan? rest).map (.colon :: ·)
    else if b = 0x22 then
      match h : readPieces rest with
      | none => none
      | some (pieces, tail) =>
        have := length_of_readPieces h
        (scan? tail).map (.string (textOf? pieces) :: ·)
    else if isNumberByte b then
      have := length_of_span isNumberByte rest
      match number? ((b :: rest.takeWhile isNumberByte).map fun b => Char.ofNat b.toNat) with
      | none => none
      | some n => (scan? (rest.dropWhile isNumberByte)).map (.number n :: ·)
    else match b, rest with
      | 0x6E, 0x75 :: 0x6C :: 0x6C :: tail => (scan? tail).map (.null :: ·)
      | 0x74, 0x72 :: 0x75 :: 0x65 :: tail => (scan? tail).map (.bool true :: ·)
      | 0x66, 0x61 :: 0x6C :: 0x73 :: 0x65 :: tail => (scan? tail).map (.bool false :: ·)
      | _, _ => none
termination_by s.length
decreasing_by all_goals (simp only [List.length_cons]; omega)

end Token

end Backplane.Json
