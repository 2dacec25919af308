import Backplane.Data.Roster

/-!
# `Backplane.Lock.Item`: the lock of one resource

A lock has a fixed number of permits. A permit is available, held by a
grant, or in the hand of a call that waited for it and has not run since.
A released permit goes to the call that has waited longest. One grant is
shared by all users of its call, so the owners can outnumber the grants.

The main statements:

* `supply_release`: a release adds its permits, wherever they go.
* `owners_grant`: a grant adds its users and no one else.
-/

set_option autoImplicit false

namespace Backplane.Lock

/-- Names a call that locks something. -/
abbrev CallId := Nat

/-- A finite set of user ids. -/
abbrev Users := Roster Int

/-- The lock of one resource. -/
structure Item where
  /-- All permits there are. -/
  capacity : Nat
  /-- Permits that nobody has. -/
  available : Nat
  /-- The calls that wait for a permit, longest wait first. -/
  waiters : List CallId := []
  /-- The calls that have been handed a permit and have not run since. -/
  handed : List CallId := []
  owners : Users := ∅
  /-- Permits held by grants. -/
  held : Nat := 0
  /-- The smallest user of the last grant. -/
  lastOwner : Option Int := none
deriving Repr, DecidableEq

namespace Item

/-- A lock that nobody has used. -/
def fresh (capacity : Nat) : Item := { capacity, available := capacity }

/-- Whether one of the users is an owner. -/
def isOwnedByAny (i : Item) (users : Users) : Bool := users.meets i.owners

/-- Whether no permit is out and nobody is an owner. -/
def isFree (i : Item) : Bool := i.available == i.capacity && i.owners.isEmpty

/-- The permits that are available or in the hand of a call. -/
def supply (i : Item) : Nat := i.available + i.handed.length

/-- Gives `n` permits back: to the calls that wait, one each, and what is
left to nobody. The calls that got one are the second part. -/
def release (i : Item) (n : Nat) : Item × List CallId :=
  let lucky := i.waiters.take n
  ({ i with
      available := i.available + (n - lucky.length)
      waiters := i.waiters.drop n
      handed := i.handed ++ lucky }, lucky)

/-- Takes an available permit, if there is one. -/
def takePermit? (i : Item) : Option Item :=
  if 0 < i.available then some { i with available := i.available - 1 } else none

/-- Puts a call at the end of the queue. -/
def enqueue (i : Item) (c : CallId) : Item := { i with waiters := i.waiters ++ [c] }

/-- Takes a call out of the queue. -/
def leave (i : Item) (c : CallId) : Item := { i with waiters := i.waiters.filter (· ≠ c) }

/-- Takes the permit out of the hand of a call. -/
def unhand (i : Item) (c : CallId) : Item := { i with handed := i.handed.filter (· ≠ c) }

/-- Turns a permit that was just taken into a grant for users. -/
def grant (i : Item) (users : Users) : Item :=
  { i with owners := i.owners.union users, held := i.held + 1, lastOwner := users.min? }

/-- Ends the grant of a single owner; `none` if the user is no owner. -/
def releaseOwner? (i : Item) (user : Int) : Option (Item × List CallId) :=
  if user ∈ i.owners then
    some (({ i with owners := i.owners.erase user, held := i.held - 1 }).release 1)
  else none

/-- Ends the grant of the first of the users who is an owner. -/
def releaseFirst? (i : Item) (users : Users) : Option (Item × List CallId) :=
  users.members.findSome? i.releaseOwner?

/-- Ends all grants, for all owners; `none` if no user is an owner. -/
def releaseShared? (i : Item) (users : Users) : Option (Item × List CallId) :=
  if i.isOwnedByAny users then
    some (({ i with owners := ∅, held := 0 }).release i.held)
  else none

/-- Takes a grant back that was made for users. -/
def revoke (i : Item) (users : Users) : Item × List CallId :=
  let i := { i with owners := i.owners.diff users }
  -- Somebody may have unlocked the grant meanwhile; then no permit is left
  -- to give back.
  if 0 < i.held then ({ i with held := i.held - 1 }).release 1 else (i, [])

/-- A release adds its permits, wherever they go. -/
theorem supply_release (i : Item) (n : Nat) : (i.release n).1.supply = i.supply + n := by
  simp only [release, supply, List.length_append, List.length_take]
  omega

/-- A grant adds its users and no one else. -/
theorem owners_grant (i : Item) (users : Users) (u : Int) :
    u ∈ (i.grant users).owners ↔ u ∈ i.owners ∨ u ∈ users := by
  simp [grant]

end Item

/-- What a lock shows of itself. -/
structure Info where
  resourceType : String
  id : Int
  owners : List Int
  maxLocks : Nat
  availablePermits : Nat
  lastOwner : Option Int
deriving Repr, DecidableEq

/-- The state of a lock as it is shown. -/
def Item.info (i : Item) (resourceType : String) (id : Int) : Info :=
  { resourceType, id, owners := i.owners.members, maxLocks := i.capacity
    availablePermits := i.available, lastOwner := i.lastOwner }

end Backplane.Lock
