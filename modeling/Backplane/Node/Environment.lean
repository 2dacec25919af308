import Backplane.Text.Numeral

/-!
# `Backplane.Node.Environment`: named settings from outside

A variable has bytes. One whose bytes are no text counts as unset.
-/

set_option autoImplicit false

namespace Backplane.Node

/-- Variables with their bytes. -/
structure Environment where
  bindings : List (String × List UInt8) := []
deriving Repr, DecidableEq, Inhabited

namespace Environment

/-- The text of a variable. -/
def text? (e : Environment) (name : String) : Option String :=
  (e.bindings.lookup name).bind fun bytes => String.fromUTF8? (ByteArray.mk bytes.toArray)

/-- The value of a variable that is an unsigned numeral. -/
def unsigned? (e : Environment) (name : String) : Option Nat :=
  (e.text? name).bind fun s => Text.unsigned? s.toList

/-- The text of a variable, where an empty one means nothing; `none` if
it is unset. -/
def optional? (e : Environment) (name : String) : Option (Option String) :=
  (e.text? name).map fun s => if s.isEmpty then none else some s

end Environment

end Backplane.Node
