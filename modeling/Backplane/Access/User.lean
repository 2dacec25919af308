import Backplane.Data.Roster
import Backplane.Json.Printer
import Backplane.Json.Record

/-!
# `Backplane.Access.User`: users, their rights, and announced logons

The records that the directory and the session index keep, with their
JSON form. Members are written in declaration order.
-/

set_option autoImplicit false

namespace Backplane.Access

/-- A user of the directory. -/
structure User where
  id : Int
  name : String
  firstName : String := ""
  lastName : String := ""
  email : String := ""
deriving Repr, DecidableEq, Inhabited

namespace User

/-- The user as a JSON object. -/
def toJson (u : User) : Json :=
  .object [("id", .ofInt u.id), ("name", .string u.name), ("first_name", .string u.firstName),
    ("last_name", .string u.lastName), ("email", .string u.email)]

/-- A text field that may be absent, in which case it is empty. -/
def optionalText? : Option Json.Tree → Option String
  | none => some ""
  | some t => t.text?

/-- Reads a user; the last three fields may be absent. -/
def ofTree? (t : Json.Tree) : Option User := do
  match ← t.fields? ["id", "name", "first_name", "last_name", "email"] with
  | [some id, some name, firstName, lastName, email] =>
    return { id := ← id.signed?
             name := ← name.text?
             firstName := ← optionalText? firstName
             lastName := ← optionalText? lastName
             email := ← optionalText? email }
  | _ => none

end User

/-- The roles and permissions of a user. -/
structure Rights where
  roles : Roster String := ∅
  permissions : Roster String := ∅
deriving Repr, DecidableEq, Inhabited

namespace Rights

/-- The rights with the roles and permissions of two lists. -/
def ofLists (roles permissions : List String) : Rights :=
  ⟨.ofList roles, .ofList permissions⟩

/-- Whether a role is granted. -/
def hasRole (r : Rights) (role : String) : Bool := role ∈ r.roles

/-- Whether a permission is granted. -/
def hasPermission (r : Rights) (permission : String) : Bool := permission ∈ r.permissions

/-- The rights as a JSON object of two ascending arrays. -/
def toJson (r : Rights) : Json :=
  .object [("roles", .array (r.roles.members.map .string)),
    ("permissions", .array (r.permissions.members.map .string))]

/-- Reads rights; both fields have to be there. -/
def ofTree? (t : Json.Tree) : Option Rights := do
  match ← t.fields? ["roles", "permissions"] with
  | [some roles, some permissions] => return ofLists (← roles.texts?) (← permissions.texts?)
  | _ => none

end Rights

/-- The user that a session was announced to belong to. -/
structure Logon where
  userId : Int
  userName : String
deriving Repr, DecidableEq, Inhabited

namespace Logon

/-- The logon as a JSON object. -/
def toJson (l : Logon) : Json :=
  .object [("user_id", .ofInt l.userId), ("user_name", .string l.userName)]

/-- Reads a logon; both fields have to be there. -/
def ofTree? (t : Json.Tree) : Option Logon := do
  match ← t.fields? ["user_id", "user_name"] with
  | [some userId, some userName] => return ⟨← userId.signed?, ← userName.text?⟩
  | _ => none

end Logon

end Backplane.Access
