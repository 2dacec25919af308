import Backplane.Text.Blank
import Backplane.Text.Hex

/-!
# `Backplane.Net.Address`: texts of network addresses

Readers of dotted quads and of colon-separated groups, and the loopback
test. Each reader takes what it needs from the front of a text and gives
back the rest.
-/

set_option autoImplicit false

namespace Backplane.Net

/-- An address of either family. -/
inductive Address where
  /-- Four octets. -/
  | v4 (octets : List Nat)
  /-- Eight groups of sixteen bits. -/
  | v6 (groups : List Nat)
deriving Repr, DecidableEq

namespace Address

/-- One to three decimal digits without a leading zero, of value at most
255. -/
def readOctet (cs : List Char) : Option (Nat × List Char) :=
  let digits := cs.takeWhile Char.isDigit
  let value := digits.foldl (fun n c => 10 * n + (c.toNat - 48)) 0
  if digits = [] ∨ 3 < digits.length ∨ 255 < value
      ∨ (digits.head? = some '0' ∧ digits.length ≠ 1) then none
  else some (value, cs.dropWhile Char.isDigit)

/-- Four octets with dots between them. -/
def readQuad (cs : List Char) : Option (List Nat × List Char) := do
  let (a, cs) ← readOctet cs
  let cs ← afterDot cs
  let (b, cs) ← readOctet cs
  let cs ← afterDot cs
  let (c, cs) ← readOctet cs
  let cs ← afterDot cs
  let (d, cs) ← readOctet cs
  return ([a, b, c, d], cs)
where
  afterDot : List Char → Option (List Char)
    | '.' :: rest => some rest
    | _ => none

/-- Whether a character is a hexadecimal digit. -/
def isHexDigit (c : Char) : Bool := (Text.Hex.digit? c).isSome

/-- One to four hexadecimal digits. -/
def readGroup (cs : List Char) : Option (Nat × List Char) :=
  let digits := cs.takeWhile isHexDigit
  if digits = [] ∨ 4 < digits.length then none
  else some (digits.foldl (fun n c => 16 * n + (Text.Hex.digit? c).getD 0) 0,
    cs.dropWhile isHexDigit)

/-- The text behind the separator of a group; the first group has none. -/
def afterColon (first : Bool) (cs : List Char) : Option (List Char) :=
  if first then some cs
  else match cs with
    | ':' :: rest => some rest
    | _ => none

/-- A dotted quad as two groups. -/
def readEmbedded (first : Bool) (cs : List Char) : Option (List Nat × List Char) := do
  let (octets, rest) ← readQuad (← afterColon first cs)
  match octets with
  | [a, b, c, d] => return ([256 * a + b, 256 * c + d], rest)
  | _ => none

/-- Reads groups as long as there are some, `limit` of them at most. A
dotted quad that stands for two groups ends the run. The flag tells
whether one did. -/
def readGroups (first : Bool) : Nat → List Char → List Nat × Bool × List Char
  | 0, cs => ([], false, cs)
  | limit + 1, cs =>
    match if 0 < limit then readEmbedded first cs else none with
    | some (pair, rest) => (pair, true, rest)
    | none =>
      match (afterColon first cs).bind readGroup with
      | none => ([], false, cs)
      | some (g, rest) =>
        let (gs, quad, tail) := readGroups false limit rest
        (g :: gs, quad, tail)

/-- Eight groups, or fewer with one `::` that stands for at least one
zero group. A dotted quad may stand at the very end alone. -/
def readV6 (cs : List Char) : Option (List Nat × List Char) :=
  match readGroups true 8 cs with
  | (head, quad, rest) =>
    if head.length = 8 then some (head, rest)
    else if quad then none
    else match rest with
      | ':' :: ':' :: rest =>
        match readGroups true (7 - head.length) rest with
        | (tail, _, rest) =>
          some (head ++ List.replicate (8 - head.length - tail.length) 0 ++ tail, rest)
      | _ => none

/-- The address that a text writes. -/
def parse? (cs : List Char) : Option Address :=
  match readQuad cs with
  | some (octets, []) => some (.v4 octets)
  | some _ => none
  | none =>
    match readV6 cs with
    | some (groups, []) => some (.v6 groups)
    | _ => none

/-- Whether an address stays on its own machine: `127.x.y.z`, or seven
zero groups and a one. -/
def isLoopback : Address → Bool
  | .v4 octets => octets.head? == some 127
  | .v6 groups => groups == [0, 0, 0, 0, 0, 0, 0, 1]

end Address

/-- Whether a text names the own machine: `localhost` in any ASCII case,
or a loopback address, with blanks around it or not. -/
def isLoopback (text : String) : Bool :=
  let cs := Text.trimChars text.toList
  cs.map Char.toLower == "localhost".toList || (Address.parse? cs).any Address.isLoopback

end Backplane.Net
