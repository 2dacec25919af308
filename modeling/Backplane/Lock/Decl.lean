import Backplane.Lock.Service
import Backplane.Text.Blank
import Backplane.Text.Numeral
import Backplane.Text.Split

/-!
# `Backplane.Lock.Decl`: declarations of resource types as text

Types are declared in a list with commas, each as `name:count` or
`name:count:multi`. An entry that is no declaration is skipped.
-/

set_option autoImplicit false

namespace Backplane.Lock.TypeDecl

/-- Whether a number of permits is one that a lock can have. -/
def isCount (n : Nat) : Bool := 1 ≤ n && n ≤ maxPermits

/-- The parts of an entry as a declaration. -/
def ofParts? : List (List Char) → Option TypeDecl
  | name :: count :: rest =>
    if name.isEmpty then none
    else ((Text.unsigned? count).filter isCount).map fun maxLocks =>
      { name := String.ofList name, maxLocks, allowMulti := rest.head? == some "multi".toList }
  | _ => none

/-- The declaration of an entry, which may have blanks around it. -/
def parse? (entry : List Char) : Option TypeDecl :=
  ofParts? (Text.split ':' (Text.trimChars entry))

/-- The declarations of a list. -/
def parseAll (raw : String) : List TypeDecl := (Text.split ',' raw.toList).filterMap parse?

end Backplane.Lock.TypeDecl
