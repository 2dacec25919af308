import Backplane.Access.Directory
import Backplane.Text.Blank
import Backplane.Text.Numeral
import Backplane.Text.Split

/-!
# `Backplane.Node.UserDecl`: declarations of users as text

Users are declared in a list with semicolons, each as `id:name:password`
or `id:name:password:role|role`. Roles may hold colons. An entry that is
no declaration is skipped.
-/

set_option autoImplicit false

namespace Backplane.Node

/-- A declared user. -/
structure UserDecl where
  id : Int
  name : String
  password : String
  roles : List String
deriving Repr, DecidableEq, Inhabited

namespace UserDecl

/-- The roles of a text with bars between them; empty ones are dropped. -/
def parseRoles (cs : List Char) : List String :=
  ((Text.split '|' cs).filter fun r => !r.isEmpty).map String.ofList

/-- The parts of an entry as a declaration. -/
def ofParts? : List (List Char) → Option UserDecl
  | id :: name :: password :: rest =>
    if name.isEmpty then none
    else (Text.signed? id).map fun id =>
      { id, name := String.ofList name, password := String.ofList password
        roles := (rest.head?.map parseRoles).getD [] }
  | _ => none

/-- The declaration of an entry, which may have blanks around it. -/
def parse? (entry : List Char) : Option UserDecl :=
  ofParts? (Text.splitUpTo ':' 3 (Text.trimChars entry))

/-- The declarations of a list. -/
def parseAll (raw : String) : List UserDecl := (Text.split ';' raw.toList).filterMap parse?

/-- The user that is declared. -/
def user (d : UserDecl) : Access.User := { id := d.id, name := d.name }

/-- Adds the account of a declared user. -/
def addTo (dir : Access.Directory) (d : UserDecl) : Access.Directory :=
  dir.add d.user d.password (.ofLists d.roles [])

end UserDecl

end Backplane.Node
