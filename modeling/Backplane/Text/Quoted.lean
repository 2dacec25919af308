import Backplane.Text.Hidden

/-!
# `Backplane.Text.Quoted`: texts in quotes, for a reader

A diagnostic text puts a string between quotes and escapes the quote, the
backslash and every character that would not show.
-/

set_option autoImplicit false

namespace Backplane.Text

/-- A code point in braces, in hexadecimal digits. -/
def escapeCode (c : Char) : List Char :=
  ['\\', 'u', '\x7b'] ++ Nat.toDigits 16 c.toNat ++ ['\x7d']

/-- How a character is shown between quotes. -/
def show1 (c : Char) : List Char :=
  match c with
  | '"' => ['\\', '"']
  | '\\' => ['\\', '\\']
  | '\x00' => ['\\', '0']
  | '\t' => ['\\', 't']
  | '\n' => ['\\', 'n']
  | '\r' => ['\\', 'r']
  | c => if ' ' ≤ c ∧ c ≤ '~' then [c] else if isHidden c then escapeCode c else [c]

/-- A text between quotes. -/
def quoted (s : String) : String :=
  "\"" ++ String.ofList (s.toList.flatMap show1) ++ "\""

end Backplane.Text
