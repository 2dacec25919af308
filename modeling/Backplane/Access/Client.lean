import Backplane.Access.User
import Backplane.Data.Table
import Backplane.Text.Quoted
import Backplane.Text.Timestamp

/-!
# `Backplane.Access.Client`: authenticated clients and their attributes

A client carries attributes. An attribute can be a value or a listener
that is told when it enters and leaves the client. Clearing a client
drops all attributes for good.
-/

set_option autoImplicit false

namespace Backplane.Access

/-- What an attribute holds. -/
inductive Attribute where
  | value (v : Json)
  /-- A listener, by its name. -/
  | listener (name : String)
deriving Repr, BEq

namespace Attribute

/-- The value, if it is no listener. -/
def value? : Attribute → Option Json
  | .value v => some v
  | .listener _ => none

/-- The diagnostic text of an attribute. -/
def display : Attribute → String
  | .value v => "Json(" ++ v.render ++ ")"
  | .listener _ => "Bound(..)"

end Attribute

/-- What a listener was told. -/
structure Notice where
  /-- Whether it entered or left the client. -/
  bound : Bool
  listener : String
  /-- The name of the attribute. -/
  name : String
deriving Repr, DecidableEq

/-- The notice that an attribute causes, if it is a listener. -/
def Attribute.notices (a : Attribute) (bound : Bool) (name : String) : List Notice :=
  match a with
  | .value _ => []
  | .listener l => [⟨bound, l, name⟩]

/-- One authenticated client. -/
structure Client where
  clientId : String
  /-- The session that the client logged on from. -/
  session : Option String
  user : User
  rights : Rights
  /-- Milliseconds since the start of 1970. -/
  logonTime : Int
  lastAccess : Int
  attributes : Table String Attribute := ∅
  cleared : Bool := false
deriving Repr

namespace Client

/-- A client that logs on now. -/
def logon (clientId : String) (session : Option String) (user : User) (rights : Rights)
    (now : Int) : Client :=
  { clientId, session, user, rights, logonTime := now, lastAccess := now }

/-- The client after a use. -/
def touch (c : Client) (now : Int) : Client := { c with lastAccess := now }

/-- Stores an attribute. A replaced one is told first. A cleared client
takes none. -/
def setAttribute (c : Client) (name : String) (a : Attribute) : Bool × Client × List Notice :=
  if c.cleared then (false, c, [])
  else
    -- The replaced attribute leaves before the new one enters.
    let left := match c.attributes.get? name with
      | none => []
      | some old => old.notices false name
    (true, { c with attributes := c.attributes.insert name a }, left ++ a.notices true name)

/-- The attribute of a name. -/
def getAttribute? (c : Client) (name : String) : Option Attribute := c.attributes.get? name

/-- Drops an attribute. -/
def removeAttribute (c : Client) (name : String) : Option Attribute × Client × List Notice :=
  match c.attributes.get? name with
  | none => (none, c, [])
  | some old =>
    (some old, { c with attributes := c.attributes.erase name }, old.notices false name)

/-- The names of the attributes, ascending. -/
def attributeNames (c : Client) : List String := c.attributes.keys

/-- Drops all attributes for good. Only the first call does anything. -/
def clear (c : Client) : Client × List Notice :=
  if c.cleared then (c, [])
  else
    ({ c with attributes := ∅, cleared := true },
      c.attributes.entries.flatMap fun (name, a) => a.notices false name)

/-- The diagnostic text of a client. -/
def display (c : Client) : String :=
  let session := match c.session with
    | none => "None"
    | some s => "Some(" ++ Text.quoted s ++ ")"
  "TokenAuthItem \x7b id_client: " ++ Text.quoted c.clientId ++ ", session: " ++ session
    ++ ", user: " ++ Text.quoted c.user.name ++ ", logon_time: "
    ++ Text.Timestamp.render c.logonTime ++ ", .. \x7d"

end Client

end Backplane.Access
