import Backplane.Json.Token

/-!
# `Backplane.Json.Tree`: the structure of a JSON text

A text is read by a machine with a stack, one token at a time, so that
nesting has no limit but the text itself. A tree keeps what the text
says, repeated members included; turning it into a value keeps the last
of them. The main statements:

* `ofTokens?_eq_some`: reading is a run of the machine from a single
  awaited value to a single finished one.
-/

set_option autoImplicit false

namespace Backplane.Json

/-- What a text says. A string that spells no text has none. -/
inductive Tree where
  | null
  | bool (b : Bool)
  | number (n : Number)
  | string (s : Option String)
  | array (items : List Tree)
  | object (members : List (Option String × Tree))
deriving Repr, BEq, Inhabited

namespace Tree

/-- A value around the one that is being read, with what is read of it,
newest part first. -/
inductive Frame where
  | array (items : List Tree)
  | object (members : List (Option String × Tree)) (name : Option String)

/-- What the machine has read and what it awaits. -/
inductive State where
  /-- A value has to come. -/
  | value (stack : List Frame)
  /-- An array has just begun. -/
  | openArray (stack : List Frame)
  /-- An object has just begun. -/
  | openObject (stack : List Frame)
  /-- A member has to come. -/
  | member (members : List (Option String × Tree)) (stack : List Frame)
  /-- The colon of a member has to come. -/
  | colon (members : List (Option String × Tree)) (name : Option String) (stack : List Frame)
  /-- A value is complete. -/
  | complete (v : Tree) (stack : List Frame)

/-- Begins a value with its first token. -/
def State.start (stack : List Frame) : Token → Option State
  | .null => some (.complete .null stack)
  | .bool b => some (.complete (.bool b) stack)
  | .number n => some (.complete (.number n) stack)
  | .string s => some (.complete (.string s) stack)
  | .beginArray => some (.openArray stack)
  | .beginObject => some (.openObject stack)
  | _ => none

/-- Takes one token. -/
def State.next : State → Token → Option State
  | .value stack, t => State.start stack t
  | .openArray stack, .endArray => some (.complete (.array []) stack)
  | .openArray stack, t => State.start (.array [] :: stack) t
  | .openObject stack, .endObject => some (.complete (.object []) stack)
  | .openObject stack, .string s => some (.colon [] s stack)
  | .member members stack, .string s => some (.colon members s stack)
  | .colon members name stack, .colon => some (.value (.object members name :: stack))
  | .complete v (.array items :: stack), .comma => some (.value (.array (v :: items) :: stack))
  | .complete v (.array items :: stack), .endArray =>
    some (.complete (.array (v :: items).reverse) stack)
  | .complete v (.object members name :: stack), .comma =>
    some (.member ((name, v) :: members) stack)
  | .complete v (.object members name :: stack), .endObject =>
    some (.complete (.object ((name, v) :: members).reverse) stack)
  | _, _ => none

/-- The value that the machine has read, if it awaits nothing more. -/
def State.result? : State → Option Tree
  | .complete v [] => some v
  | _ => none

/-- The tree of a list of tokens. -/
def ofTokens? (tokens : List Token) : Option Tree :=
  (tokens.foldlM State.next (.value [])).bind State.result?

/-- The tree of a text of bytes. -/
def ofBytes? (bytes : List UInt8) : Option Tree := (Token.scan? bytes).bind ofTokens?

/-- The tree of a text. -/
def ofString? (s : String) : Option Tree := ofBytes? s.toUTF8.data.toList

/-- Reading is a run of the machine from a single awaited value to a
single finished one. -/
theorem ofTokens?_eq_some {tokens : List Token} {t : Tree} :
    ofTokens? tokens = some t
      ↔ tokens.foldlM State.next (.value []) = some (.complete t []) := by
  simp only [ofTokens?, Option.bind_eq_some_iff]
  constructor
  · rintro ⟨s, hs, h⟩
    rw [hs]
    unfold State.result? at h
    split at h <;> simp_all
  · exact fun h => ⟨_, h, rfl⟩

/-- Puts a member into members in ascending order of their names, in
place of one of its name. -/
def putMember (name : String) (v : Json) : List (String × Json) → List (String × Json)
  | [] => [(name, v)]
  | (name', v') :: rest =>
    if name < name' then (name, v) :: (name', v') :: rest
    else if name = name' then (name, v) :: rest
    else (name', v') :: putMember name v rest

mutual

/-- The value of a tree all of whose strings spell texts. -/
def toJson? : Tree → Option Json
  | .null => some .null
  | .bool b => some (.bool b)
  | .number n => some (.number n)
  | .string s => s.map .string
  | .array items => (itemsToJson? items).map .array
  | .object members => (membersToJson? [] members).map .object

/-- The values of all items. -/
def itemsToJson? : List Tree → Option (List Json)
  | [] => some []
  | t :: rest => do
    let v ← toJson? t
    let vs ← itemsToJson? rest
    return v :: vs

/-- The members so far and those of a list; the last of a name counts. -/
def membersToJson? (acc : List (String × Json)) :
    List (Option String × Tree) → Option (List (String × Json))
  | [] => some acc
  | (name, t) :: rest => do
    let name ← name
    let v ← toJson? t
    membersToJson? (putMember name v acc) rest

end

end Tree

/-- The value that a text of bytes writes. -/
def ofBytes? (bytes : List UInt8) : Option Json := (Tree.ofBytes? bytes).bind Tree.toJson?

/-- The value that a text writes. -/
def ofString? (s : String) : Option Json := ofBytes? s.toUTF8.data.toList

end Backplane.Json
