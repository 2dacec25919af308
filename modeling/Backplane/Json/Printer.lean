import Backplane.Json.Value
import Backplane.Text.Hex

/-!
# `Backplane.Json.Printer`: compact JSON text

No blanks between tokens; in strings only the quote, the backslash and
the control characters are escaped.
-/

set_option autoImplicit false

namespace Backplane.Json

/-- How a character is written in a string. -/
def escape (c : Char) : List Char :=
  match c with
  | '"' => ['\\', '"']
  | '\\' => ['\\', '\\']
  | '\n' => ['\\', 'n']
  | '\r' => ['\\', 'r']
  | '\t' => ['\\', 't']
  | c =>
    let n := c.toNat
    if n = 8 then ['\\', 'b']
    else if n = 12 then ['\\', 'f']
    else if n < 32 then
      ['\\', 'u', '0', '0', Text.Hex.digitChar (n / 16), Text.Hex.digitChar (n % 16)]
    else [c]

/-- A string between quotes. -/
def quote (cs : List Char) : List Char := '"' :: (cs.flatMap escape ++ ['"'])

/-- The literal of a number. -/
def Number.chars : Number → List Char
  | .integer n => (toString n).toList
  | .decimal literal => literal.toList

mutual

/-- The compact text of a value. -/
def chars : Json → List Char
  | .null => ['n', 'u', 'l', 'l']
  | .bool true => ['t', 'r', 'u', 'e']
  | .bool false => ['f', 'a', 'l', 's', 'e']
  | .number n => n.chars
  | .string s => quote s.toList
  | .array items => '[' :: (itemChars items ++ [']'])
  | .object members => '\x7b' :: (memberChars members ++ ['\x7d'])

/-- Items with commas between them. -/
def itemChars : List Json → List Char
  | [] => []
  | [v] => chars v
  | v :: rest => chars v ++ ',' :: itemChars rest

/-- Members with commas between them. -/
def memberChars : List (String × Json) → List Char
  | [] => []
  | [(name, v)] => quote name.toList ++ ':' :: chars v
  | (name, v) :: rest => quote name.toList ++ ':' :: (chars v ++ ',' :: memberChars rest)

end

/-- The compact text of a value. -/
def render (v : Json) : String := String.ofList v.chars

end Backplane.Json
