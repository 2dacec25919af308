import Backplane.Data.Table
import Backplane.Json.Printer
import Backplane.Text.Quoted

/-!
# `Backplane.Bus.Message`: messages and what they carry

A message has an id, the sender it names, and a context: values under
keys, and listeners to call after the dispatch. Contexts are generic in
the kind of listener.
-/

set_option autoImplicit false

namespace Backplane.Bus

/-- Message ids are small integers with a meaning of their own. -/
abbrev MessageId := Int

namespace MessageId

/-- Ten minutes have passed without a message. -/
def idle10 : MessageId := 10

/-- Thirty minutes have passed without a message. -/
def idle30 : MessageId := 30

/-- Sixty minutes have passed without a message. -/
def idle60 : MessageId := 60

/-- A user logged on in a session. -/
def userLogon : MessageId := 101

/-- A session ended. -/
def userLogout : MessageId := 102

/-- A client was authenticated. -/
def tokenIssued : MessageId := 110

/-- A client is gone. -/
def tokenRemoved : MessageId := 111

/-- Whether an id tells of idle time. -/
def isIdle (m : MessageId) : Bool := [idle10, idle30, idle60].contains m

end MessageId

/-- The keys of the values that sessions and clients are told by. -/
structure ContextKeys where
  session : String := "sessionID"
  userId : String := "userID"
  userName : String := "userName"
  clientId : String := "idClient"

/-- The keys in use. -/
def keys : ContextKeys := {}

/-- Who sent a message: nobody in particular, or a value that listeners
may recognise. -/
inductive Originator where
  | none
  | text (s : String)
  | number (n : Int)
deriving Repr, DecidableEq, Inhabited

namespace Originator

/-- Whether nobody is named. -/
def isNone : Originator → Bool
  | .none => true
  | _ => false

/-- The text, if it is one. -/
def text? : Originator → Option String
  | .text s => some s
  | _ => Option.none

/-- The number, if it is one. -/
def number? : Originator → Option Int
  | .number n => some n
  | _ => Option.none

/-- What a sender shows of itself. -/
def display : Originator → String
  | .none => "Originator(none)"
  | _ => "Originator(..)"

end Originator

mutual

/-- A value with the name of its kind. -/
def describe : Json → String
  | .null => "Null"
  | .bool true => "Bool(true)"
  | .bool false => "Bool(false)"
  | .number n => "Number(" ++ String.ofList n.chars ++ ")"
  | .string s => "String(" ++ Text.quoted s ++ ")"
  | .array items => "Array [" ++ describeItems items ++ "]"
  | .object members => "Object \x7b" ++ describeMembers members ++ "\x7d"

/-- Described items with commas between them. -/
def describeItems : List Json → String
  | [] => ""
  | [v] => describe v
  | v :: rest => describe v ++ ", " ++ describeItems rest

/-- Described members with commas between them. -/
def describeMembers : List (String × Json) → String
  | [] => ""
  | [(name, v)] => Text.quoted name ++ ": " ++ describe v
  | (name, v) :: rest => Text.quoted name ++ ": " ++ describe v ++ ", " ++ describeMembers rest

end

/-- What a message carries. -/
structure Context (L : Type) where
  values : Table String Json := ∅
  /-- Listeners to call after the dispatch, in this order. -/
  postActions : List L := []

namespace Context

variable {L : Type}

instance : Inhabited (Context L) := ⟨{}⟩

/-- Stores a value under a key. -/
def insert (c : Context L) (key : String) (v : Json) : Context L :=
  { c with values := c.values.insert key v }

/-- Adds a listener to call after the dispatch. -/
def addPostAction (c : Context L) (l : L) : Context L :=
  { c with postActions := c.postActions ++ [l] }

/-- The value of a key. -/
def get? (c : Context L) (key : String) : Option Json := c.values.get? key

/-- The value of a key, if it is a text. -/
def text? (c : Context L) (key : String) : Option String := (c.get? key).bind Json.text?

/-- The value of a key as an integer; a numeral in a text counts. -/
def signed? (c : Context L) (key : String) : Option Int := (c.get? key).bind Json.signed?

/-- Whether a key has a value. -/
def contains (c : Context L) (key : String) : Bool := c.values.contains key

/-- The number of values. -/
def size (c : Context L) : Nat := c.values.size

/-- Whether there is no value. -/
def isEmpty (c : Context L) : Bool := c.values.isEmpty

/-- The diagnostic text of a context. -/
def display (c : Context L) : String :=
  "BusContext \x7b values: \x7b" ++ describeMembers c.values.entries ++ "\x7d, post_actions: "
    ++ toString c.postActions.length ++ " \x7d"

end Context

/-- A message. -/
structure Message (L : Type) where
  id : MessageId
  originator : Originator := .none
  context : Context L := {}

/-- A message of a pack, with the delay of its own. -/
structure Parcel (L : Type) where
  message : Message L
  delay : Nat

/-- Messages that are queued back to back. -/
structure Pack (L : Type) where
  parcels : List (Parcel L) := []

namespace Pack

variable {L : Type}

/-- Adds a message at the end. -/
def add (p : Pack L) (message : Message L) (delay : Nat) : Pack L :=
  ⟨p.parcels ++ [⟨message, delay⟩]⟩

/-- The number of messages. -/
def size (p : Pack L) : Nat := p.parcels.length

/-- Whether there is no message. -/
def isEmpty (p : Pack L) : Bool := p.parcels.isEmpty

end Pack

end Backplane.Bus
