import Backplane.Access.Service
import Backplane.Bus.Delivery
import Backplane.Node.Listener
import Backplane.Timeline

/-!
# `Backplane.Node.Basic`: a node of three services around one bus

A node is a message bus with the lock service and the access service
around it, on one virtual clock. Lock calls and the delivery worker of
the bus are tasks; a task runs when something that it waits for has
happened. What listeners do to the node is said here, and when tasks run
in `Backplane.Node.Run`.
-/

set_option autoImplicit false

namespace Backplane.Node

open Bus (MessageId Originator)

/-- What runs on the clock of a node. -/
inductive Task where
  | lockCall (name : Lock.CallId)
  /-- The delivery worker of the bus. -/
  | worker
deriving Repr, DecidableEq

/-- A line of the log that scripted listeners write. -/
inductive Entry where
  /-- A listener was called. -/
  | called (time : Nat) (listener : String) (id : MessageId) (originator : Originator)
      (values : List (String × Json))
  /-- A listener was answered. -/
  | got (listener : String) (answer : Json)

/-- The open transaction of a dispatch. -/
inductive Connection where
  | none
  /-- A journal, with what was added to it. -/
  | journal (entries : List Json)
  /-- Something that the listeners do not know. -/
  | foreign

/-- A lock call that is over. -/
structure Outcome where
  call : Lock.CallId
  time : Nat
  result : Except Lock.Error Bool

/-- What is around the bus. -/
structure Services where
  timeline : Timeline Task := {}
  locks : Lock.Service := {}
  /-- The lock calls that have not begun. -/
  requests : List (Lock.CallId × Lock.Request) := []
  /-- The lock calls that are over and whose callers have not looked. -/
  outcomes : List Outcome := []
  access : Access.Service
  /-- Whether the news of clients goes to the bus. -/
  announces : Bool := false
  log : List Entry := []
  connection : Connection := .none

end Node

/-- A node: a bus and the services around it. -/
abbrev Node := Bus.Hosted Node.Listener Node.Listener Node.Services

namespace Node

/-- The virtual time in milliseconds. -/
def now (n : Node) : Nat := n.host.timeline.now

/-- Makes a task ready. -/
def wake (n : Node) (t : Task) : Node :=
  { n with host := { n.host with timeline := n.host.timeline.wake t } }

/-- Adds a line to the log. -/
def note (n : Node) (e : Entry) : Node :=
  { n with host := { n.host with log := n.host.log ++ [e] } }

/-- Makes the worker ready if it waits for a message. -/
def wakeWorker (n : Node) : Node := if n.bus.worker.isWaiting then n.wake .worker else n

/-- Queues a message and tells whether it was taken. -/
def post (n : Node) (m : Bus.Message Listener) (delay : Nat) : Bool × Node :=
  let (taken, bus) := n.bus.send m delay n.now
  let n := { n with bus }
  (taken, if taken then n.wakeWorker else n)

/-- Queues the messages of a pack; gives back how many were taken. -/
def postPack (n : Node) (p : Bus.Pack Listener) : Nat × Node :=
  let (taken, bus) := n.bus.sendPack p n.now
  let n := { n with bus }
  (taken, if 0 < taken then n.wakeWorker else n)

/-! ### The lock service -/

/-- Puts the result of a lock operation into the node and makes the calls
ready that were handed a permit. -/
def putLocks (n : Node) (locks : Lock.Service) (woken : List Lock.CallId) : Node :=
  { n with host := { n.host with
      locks, timeline := n.host.timeline.wakeAll (woken.map Task.lockCall) } }

/-- Unlocks a resource. -/
def unlock (n : Node) (resourceType : String) (id : Int) (p : Lock.Service.Party) :
    Except Lock.Error Unit × Node :=
  let (result, locks, woken) := n.host.locks.unlock resourceType id p
  (result, n.putLocks locks woken)

/-- Unlocks resources one after the other. -/
def unlockAll (n : Node) (resourceType : String) (ids : List Int) (p : Lock.Service.Party) :
    Except Lock.Error Unit × Node :=
  let (result, locks, woken) := n.host.locks.unlockAll resourceType ids p
  (result, n.putLocks locks woken)

/-- Collects the free locks; gives back their number. -/
def collectGarbage (n : Node) : Nat × Node :=
  let (removed, locks) := n.host.locks.collectGarbage
  (removed, n.putLocks locks [])

/-- Declares a resource type. -/
def createResource (n : Node) (d : Lock.TypeDecl) : Except Lock.Error Unit × Node :=
  match n.host.locks.createResource d with
  | .error e => (.error e, n)
  | .ok locks => (.ok (), n.putLocks locks [])

/-! ### The access service -/

/-- The message that announces a client. -/
def newsMessage (a : Access.Announcement) : Bus.Message Listener :=
  let values : Table String Json := .ofList
    ([(Bus.keys.clientId, .string a.clientId), (Bus.keys.userId, .ofInt a.userId),
      (Bus.keys.userName, .string a.userName)]
      ++ a.session.toList.map fun s => (Bus.keys.session, .string s))
  { id := if a.issued then .tokenIssued else .tokenRemoved, context := { values } }

/-- Queues one piece of news. -/
def postNews (n : Node) (a : Access.Announcement) : Node :=
  (n.post (newsMessage a) n.bus.settings.defaultDelay).2

/-- Empties the outbox of the access service: to the bus, or to nobody. -/
def deliverNews (n : Node) : Node :=
  let news := n.host.access.outbox
  -- The outbox is emptied first, so that no news is sent twice.
  let n := { n with host := { n.host with access := { n.host.access with outbox := [] } } }
  if n.host.announces then news.foldl postNews n else n

/-- Runs an operation of the access service and sends its news. -/
def withAccess {α : Type} (n : Node) (f : Access.Service → α × Access.Service) : α × Node :=
  let (a, access) := f n.host.access
  (a, deliverNews { n with host := { n.host with access } })

/-! ### What listeners do -/

/-- The session that a message names. -/
def sessionOf (m : Bus.Message Listener) : Except Bus.Error String :=
  match m.context.text? Bus.keys.session with
  | some s => if s.isEmpty then .error (.listenerFailed m.id "missing sessionID") else .ok s
  | none => .error (.listenerFailed m.id "missing sessionID")

/-- The session and the user that a logon message names. -/
def logonOf (m : Bus.Message Listener) : Except Bus.Error (String × Access.Logon) := do
  let session ← sessionOf m
  match m.context.signed? Bus.keys.userId with
  | none => throw (.listenerFailed m.id "missing userID")
  | some userId => return (session, ⟨userId, (m.context.text? Bus.keys.userName).getD ""⟩)

/-- Keeps the sessions of the access service: notes logons, ends sessions,
and purges after ten idle minutes. -/
def keepSessions (m : Bus.Message Listener) (n : Node) : Bus.Reply × Node :=
  if m.id = .userLogon then
    match logonOf m with
    | .error e => (.failure e, n)
    | .ok (session, logon) =>
      (.code 0, (n.withAccess fun s => ((), s.registerLogon session logon)).2)
  else if m.id = .userLogout then
    match sessionOf m with
    | .error e => (.failure e, n)
    | .ok session => (.code 0, (n.withAccess fun s => s.registerLogout session).2)
  else if m.id = .idle10 then (.code 0, (n.withAccess Access.Service.purge).2)
  else (.code 0, n)

/-- Collects free locks after ten idle minutes. -/
def collectLocks (m : Bus.Message Listener) (n : Node) : Bus.Reply × Node :=
  (.code 0, if m.id = .idle10 then n.collectGarbage.2 else n)

/-- Puts another transaction in the place of the open one. -/
def withConnection (n : Node) (c : Connection) : Node :=
  { n with host := { n.host with connection := c } }

/-- An answer, or nothing. -/
def answer (v : Option Json) : Json := v.getD .null

/-- Takes one action of a script. A reply ends the call at once. -/
def act (call : Bus.Caller Listener Listener Services) (listener : String)
    (m : Bus.Message Listener) (a : Action) (n : Node) : Option Bus.Reply × Node :=
  match a with
  | .readText key => (none, n.note (.got listener (answer ((m.context.text? key).map .string))))
  | .readSigned key => (none, n.note (.got listener (answer ((m.context.signed? key).map .ofInt))))
  | .register name l => (none, { n with bus := n.bus.register name l })
  | .unregister name =>
    let (found, bus) := n.bus.unregister name
    (none, note { n with bus } (.got listener (.bool found)))
  | .send id originator context =>
    -- A plain dispatch takes no part in the transaction that it is sent from.
    let (result, inner) := Bus.dispatch call { id, originator, context } (n.withConnection .none)
    let n := withConnection inner n.host.connection
    match result with
    | .ok code => (none, n.note (.got listener (.ofInt code)))
    -- A post action of the inner message panicked, and so does this call.
    | .error text => (some (.panic text), n)
  | .post id delay context =>
    let (taken, n) := n.post { id, context } (delay.getD n.bus.settings.defaultDelay)
    (none, n.note (.got listener (.bool taken)))
  | .unlock resourceType id user =>
    match n.unlock resourceType id (.one user) with
    | (.ok (), n) => (none, n)
    | (.error e, n) => (some (.failure (.listenerFailed m.id e.message)), n)
  | .journal v =>
    match n.host.connection with
    | .journal entries => (none, n.withConnection (.journal (entries ++ [v])))
    | _ => (some (.failure (.transactionAborted listener "wrong connection")), n)

/-- Takes the actions of a script up to the first that ends the call. -/
def actAll (call : Bus.Caller Listener Listener Services) (listener : String)
    (m : Bus.Message Listener) : List Action → Node → Option Bus.Reply × Node
  | [], n => (none, n)
  | a :: rest, n =>
    match act call listener m a n with
    | (none, n) => actAll call listener m rest n
    | ended => ended

/-- Follows a script. -/
def follow (call : Bus.Caller Listener Listener Services) (listener : String) (rules : List Rule)
    (keys : List String) (m : Bus.Message Listener) (n : Node) : Bus.Reply × Node :=
  let values := keys.filterMap fun key => (m.context.get? key).map fun v => (key, v)
  let n := n.note (.called n.now listener m.id m.originator values)
  match rules.find? fun r => r.fits m.id with
  | none => (.code 0, n)
  | some (.mk _ actions verdict) =>
    match actAll call listener m actions n with
    | (some reply, n) => (reply, n)
    | (none, n) => (verdict.reply listener m.id, n)

/-- What the listeners of a node do. Scripts can send messages while they
are called; `depth` bounds how far such calls are nested. -/
def call : (depth : Nat) → Bus.Caller Listener Listener Services
  | 0, _, _, n => (.code 0, n)
  | depth + 1, l, m, n =>
    match l with
    | .scripted name rules keys => follow (call depth) name rules keys m n
    | .lockCollector => collectLocks m n
    | .sessionKeeper => keepSessions m n

/-- How far calls of listeners may be nested: further than the scripts of
a node are expected to go. -/
def maxDepth : Nat := 100000

/-- Dispatches a message; the result is its code or the panic of a post
action. -/
def send (n : Node) (m : Bus.Message Listener) : Except String Int × Node :=
  Bus.dispatch (call maxDepth) m n

/-- Dispatches a message within a transaction; gives back how the
dispatch ended and what was added to the journal. -/
def sendWithin (n : Node) (m : Bus.Message Listener) (c : Connection) :
    Bus.Reply × List Json × Node :=
  let (reply, n) :=
    Bus.callTransactional (fun l => call maxDepth l m) n.bus.transactional.values
      (n.withConnection c)
  let journal := match n.host.connection with
    | .journal entries => entries
    | _ => []
  (reply, journal, withConnection n .none)

/-- Attaches the lock service to the bus. -/
def attachLocks (n : Node) : Node :=
  { n with bus := n.bus.register lockCollectorName .lockCollector }

/-- Attaches the access service to the bus: its news go there from now
on. -/
def attachAccess (n : Node) : Node :=
  { bus := n.bus.register sessionKeeperName .sessionKeeper
    host := { n.host with announces := true } }

end Node

end Backplane
