import Backplane.Lock.Service

/-!
# `Backplane.Lock.Call`: calls that lock, and may wait

A call locks its ids in ascending order. It waits where no permit is
available; a call with a deadline takes its grants back when it gives up.
A resource that one of its users owns already is passed over, also when
that came about while the call was waiting.

A call runs when it begins and whenever it is woken: because it has been
handed a permit, or because its deadline has come. If both happened, it
takes the permit.
-/

set_option autoImplicit false

namespace Backplane.Lock

/-- What a call asks for. -/
structure Request where
  resourceType : String
  ids : List Int
  party : Service.Party
  /-- How long the call waits in all; without a limit it waits forever. -/
  timeout : Option Nat
deriving Repr, DecidableEq

/-- Where a call stands after it has run. -/
inductive Progress where
  /-- It waits for the first of its ids. -/
  | waiting (call : Call)
  /-- It is over; the flag tells whether everything is locked. -/
  | done (granted : Bool)
deriving Repr, DecidableEq

namespace Call

/-- Whether the call has to give up now. -/
def isLate (c : Call) (now : Nat) : Bool := c.deadline.any (· ≤ now)

/-- The call after a grant on an id, which only a call with a deadline
has to remember. -/
def noteGrant (c : Call) (id : Int) : Call :=
  if c.deadline.isSome then { c with taken := c.taken ++ [id] } else c

end Call

namespace Block

/-- Takes the grants of a call back, in the order in which they were
made. -/
def rollBack (b : Block) (c : Call) : Block × List CallId :=
  c.taken.foldl (fun (b, woken) id =>
    let (i, w) := (b.item id).revoke c.users
    (b.setItem id i, woken ++ w)) (b, [])

/-- Lets a call give up. -/
def giveUp (b : Block) (c : Call) : Progress × Block × List CallId :=
  let (b, woken) := b.rollBack c
  (.done false, b, woken)

/-- Locks ids one after the other until all are locked or one has to be
waited for. -/
def proceed (b : Block) (name : CallId) (c : Call) (now : Nat) :
    List Int → Progress × Block × List CallId
  | [] => (.done true, b, [])
  | id :: rest =>
    let i := b.item id
    -- Looking at an id already makes its lock, also where it is passed over.
    if i.isOwnedByAny c.users then proceed (b.setItem id i) name c now rest
    else match i.takePermit? with
      | some i => proceed (b.setItem id (i.grant c.users)) name (c.noteGrant id) now rest
      | none =>
        -- A call without patience does not queue up at all.
        if c.isLate now then (b.setItem id i).giveUp c
        else (.waiting { c with ids := id :: rest }, b.setItem id (i.enqueue name), [])

/-- Lets a call go on that was handed a permit for the first of its ids.
If one of its users has become an owner meanwhile, the permit goes back. -/
def takeHanded (b : Block) (name : CallId) (c : Call) (now : Nat) (id : Int) (rest : List Int) :
    Progress × Block × List CallId :=
  let i := (b.item id).unhand name
  if i.isOwnedByAny c.users then
    -- The next call in the queue gets the permit before this one goes on.
    let (i, woken) := i.release 1
    let (progress, b, more) := (b.setItem id i).proceed name c now rest
    (progress, b, woken ++ more)
  else (b.setItem id (i.grant c.users)).proceed name (c.noteGrant id) now rest

/-- Lets a waiting call run. -/
def resume (b : Block) (name : CallId) (c : Call) (now : Nat) :
    Progress × Block × List CallId :=
  match c.ids with
  | [] => (.done true, b, [])
  | id :: rest =>
    let i := b.item id
    -- A permit in hand counts even if the deadline has come as well.
    if name ∈ i.handed then b.takeHanded name c now id rest
    else if c.isLate now then (b.setItem id (i.leave name)).giveUp c
    else (.waiting c, b, [])

end Block

namespace Service

/-- Stores the locks of a type and where a call stands. -/
def record (s : Service) (name : CallId) (step : Progress × Block × List CallId) :
    Progress × Service × List CallId :=
  let (progress, b, woken) := step
  let calls := match progress with
    | .waiting c => s.calls.insert name c
    | .done _ => s.calls.erase name
  (progress, { blocks := s.blocks.insert b.name b, calls }, woken)

/-- The call of a request that begins now. Each id is locked once, the
smallest first. -/
def callOf (r : Request) (users : Users) (now : Nat) : Call :=
  -- A machine cannot tell all of these deadlines. A batch that asks for one beyond
  -- its last time panics here, before it has taken a lock or joined a queue: it
  -- gives no answer and leaves nothing behind, so that no other call can tell it
  -- from one that was never made, and it is not a request in the sense of this
  -- model. A single try cuts its timeout instead.
  { resourceType := r.resourceType, users, ids := (Roster.ofList r.ids).members
    deadline := r.timeout.map (now + ·) }

/-- Begins a call. -/
def begin (s : Service) (name : CallId) (r : Request) (now : Nat) :
    Except Error Progress × Service × List CallId :=
  match s.resolve r.resourceType r.party with
  | .error e => (.error e, s, [])
  | .ok (b, users) =>
    let c := callOf r users now
    let (progress, s, woken) := s.record name (b.proceed name c now c.ids)
    (.ok progress, s, woken)

/-- Lets a call run that was woken. -/
def resume (s : Service) (name : CallId) (now : Nat) : Progress × Service × List CallId :=
  match s.calls.get? name with
  | none => (.done false, s, [])
  | some c =>
    match s.blocks.get? c.resourceType with
    | none => (.done false, s, [])
    | some b => s.record name (b.resume name c now)

end Service

end Backplane.Lock
