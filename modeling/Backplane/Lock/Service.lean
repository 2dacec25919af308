import Backplane.Data.Table
import Backplane.Lock.Error
import Backplane.Lock.Item

/-!
# `Backplane.Lock.Service`: resource types, their locks, and the calls

A service keeps the locks of each resource type under their ids, made on
first use and collected when they are free and no call needs them, and
the calls that are still under way. This module holds the state and the
operations that end at once; `Backplane.Lock.Call` adds the calls that
wait.

The main statements:

* `unlock_error_eq`: an unlock that fails changes nothing.
-/

set_option autoImplicit false

namespace Backplane.Lock

/-- The most permits that a lock can have: `2 ^ 61 - 1`. -/
def maxPermits : Nat := 2305843009213693951

/-- All locks of one resource type. -/
structure Block where
  name : String
  maxLocks : Nat
  /-- Whether a grant can be shared by several users. -/
  allowMulti : Bool
  items : Table Int Item := ∅
deriving Repr, DecidableEq

namespace Block

/-- The number of locks. -/
def size (b : Block) : Nat := b.items.size

/-- Whether there is no lock. -/
def isEmpty (b : Block) : Bool := b.items.isEmpty

/-- The lock of an id, a fresh one if there is none yet. -/
def item (b : Block) (id : Int) : Item := (b.items.get? id).getD (.fresh b.maxLocks)

/-- Stores the lock of an id. -/
def setItem (b : Block) (id : Int) (i : Item) : Block := { b with items := b.items.insert id i }

end Block

/-- A call that locks one id after the other for some users. -/
structure Call where
  resourceType : String
  users : Users
  /-- The ids that are still to be locked; the call waits for the first. -/
  ids : List Int
  /-- When the call gives up, if it ever does. -/
  deadline : Option Nat
  /-- The ids that a call with a deadline has been granted. -/
  taken : List Int := []
deriving Repr, DecidableEq

namespace Call

/-- Whether a call still needs the lock of an id: it waits for it or may
have to take its grant back. -/
def needs (c : Call) (resourceType : String) (id : Int) : Bool :=
  c.resourceType == resourceType && (c.ids.head? == some id || c.taken.contains id)

end Call

/-- A declared resource type. -/
structure TypeDecl where
  name : String
  maxLocks : Nat
  allowMulti : Bool
deriving Repr, DecidableEq

/-- The state of the lock service. -/
structure Service where
  blocks : Table String Block := ∅
  /-- The calls that are under way, by their names. -/
  calls : Table CallId Call := ∅
deriving Repr, DecidableEq

namespace Service

/-- Registers a resource type. A repeated declaration is no error if it
says the same. -/
def createResource (s : Service) (d : TypeDecl) : Except Error Service :=
  if d.maxLocks = 0 ∨ maxPermits < d.maxLocks then .error (.invalidMaxLocks d.name)
  else match s.blocks.get? d.name with
    | some b =>
      if b.maxLocks = d.maxLocks ∧ b.allowMulti = d.allowMulti then .ok s
      else .error (.conflictingDefinition d.name b.maxLocks b.allowMulti)
    | none => .ok { s with blocks := s.blocks.insert d.name ⟨d.name, d.maxLocks, d.allowMulti, ∅⟩ }

/-- A service with the declared types. -/
def ofDecls (ds : List TypeDecl) : Except Error Service :=
  ds.foldlM createResource {}

/-- The names of the types, ascending. -/
def resourceTypes (s : Service) : List String := s.blocks.keys

/-- The number of locks of all types. -/
def resourceCount (s : Service) : Nat := s.blocks.values.foldr (fun b n => b.size + n) 0

/-- The locks of a type. -/
def block (s : Service) (resourceType : String) : Except Error Block :=
  match s.blocks.get? resourceType with
  | some b => .ok b
  | none => .error (.unknownResourceType resourceType)

/-- The locks of a type whose grants can be shared. -/
def multiBlock (s : Service) (resourceType : String) : Except Error Block := do
  let b ← s.block resourceType
  if b.allowMulti then return b else throw (.multiNotAllowed resourceType)

/-- A set of users, which may not be empty. -/
def userSet (users : List Int) : Except Error Users :=
  if users.isEmpty then .error .emptyOwnerSet else .ok (.ofList users)

/-- Stores the lock of an id. -/
def setItem (s : Service) (b : Block) (id : Int) (i : Item) : Service :=
  { s with blocks := s.blocks.insert b.name (b.setItem id i) }

/-! ### Who asks -/

/-- For whom a lock or an unlock is asked. -/
inductive Party where
  /-- One user, on any type. -/
  | one (user : Int)
  /-- Several users, on types whose grants can be shared. -/
  | many (users : List Int)
deriving Repr, DecidableEq

/-- The locks and the users that a party may ask for. -/
def resolve (s : Service) (resourceType : String) : Party → Except Error (Block × Users)
  | .one user => do return (← s.block resourceType, .ofList [user])
  | .many users => do return (← s.multiBlock resourceType, ← userSet users)

/-! ### Unlocking -/

/-- Unlocks one id of a type for users: on types with shared grants for
all owners, on others for the first user who is one. The calls that were
handed a permit are the second part. -/
def unlockItem (s : Service) (b : Block) (users : Users) (id : Int) :
    Except Error (Service × List CallId) :=
  match b.items.get? id with
  | none => .error (.notLocked b.name id)
  | some i =>
    match if b.allowMulti then i.releaseShared? users else i.releaseFirst? users with
    | some (i, woken) => .ok (s.setItem b id i, woken)
    | none =>
      if i.owners.isEmpty then .error (.notLocked b.name id)
      else .error (.notOwner b.name id users.members)

/-- Unlocks one id. -/
def unlock (s : Service) (resourceType : String) (id : Int) (p : Party) :
    Except Error Unit × Service × List CallId :=
  match s.resolve resourceType p with
  | .error e => (.error e, s, [])
  | .ok (b, users) =>
    match s.unlockItem b users id with
    | .error e => (.error e, s, [])
    | .ok (s, woken) => (.ok (), s, woken)

/-- The first of two outcomes that is an error. -/
def firstError : Except Error Unit → Except Error Unit → Except Error Unit
  | .ok (), second => second
  | first, _ => first

/-- Unlocks ids one after the other, repeated ones repeatedly. An error
is no reason to stop; the first one is the result. -/
def unlockAll (s : Service) (resourceType : String) (ids : List Int) (p : Party) :
    Except Error Unit × Service × List CallId :=
  match s.resolve resourceType p with
  | .error e => (.error e, s, [])
  | .ok _ =>
    ids.foldl (fun (outcome, s, woken) id =>
      let (o, s, w) := s.unlock resourceType id p
      (firstError outcome o, s, woken ++ w)) (.ok (), s, [])

/-- An unlock that fails changes nothing. -/
theorem unlock_error_eq {s s' : Service} {resourceType : String} {id : Int} {p : Party}
    {e : Error} {woken : List CallId}
    (h : s.unlock resourceType id p = (.error e, s', woken)) : s' = s ∧ woken = [] := by
  unfold unlock at h
  split at h
  · simp only [Prod.mk.injEq] at h; exact ⟨h.2.1.symm, h.2.2.symm⟩
  · split at h
    · simp only [Prod.mk.injEq] at h; exact ⟨h.2.1.symm, h.2.2.symm⟩
    · simp at h

/-! ### Looking and collecting -/

/-- The owners of a resource, ascending. -/
def owners (s : Service) (resourceType : String) (id : Int) : Except Error (List Int) := do
  let b ← s.block resourceType
  return ((b.items.get? id).map fun i => i.owners.members).getD []

/-- Whether a resource has an owner. -/
def isLocked (s : Service) (resourceType : String) (id : Int) : Except Error Bool :=
  (s.owners resourceType id).map fun us => !us.isEmpty

/-- The state of a lock, if there is one. -/
def info (s : Service) (resourceType : String) (id : Int) : Except Error (Option Info) := do
  let b ← s.block resourceType
  return (b.items.get? id).map fun i => i.info resourceType id

/-- Whether a call under way needs the lock of an id. -/
def isNeeded (s : Service) (resourceType : String) (id : Int) : Bool :=
  s.calls.values.any fun c => c.needs resourceType id

/-- The locks of a type that are not free or needed by a call. -/
def survivors (s : Service) (b : Block) : Block :=
  { b with items := b.items.filter fun id i => s.isNeeded b.name id || !i.isFree }

/-- Drops all locks that are free and needed by no call; gives back their
number. -/
def collectGarbage (s : Service) : Nat × Service :=
  let swept := { s with blocks := ⟨s.blocks.entries.map fun (n, b) => (n, s.survivors b)⟩ }
  (s.resourceCount - swept.resourceCount, swept)

end Service

end Backplane.Lock
