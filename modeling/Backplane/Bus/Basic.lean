import Backplane.Bus.Settings

/-!
# `Backplane.Bus.Basic`: the state of a message bus

A bus keeps listeners under names, a queue of messages to deliver later,
and a worker that delivers them one after the other. Listeners are kept
as values of any type; what they do is said where they are called.

The main statements:

* `queue_send`: an accepted message stands at the end of the queue, and a
  refused one nowhere.
-/

set_option autoImplicit false

namespace Backplane.Bus

/-- Why a call of the bus or of a listener fails. -/
inductive Error where
  | listenerFailed (message : MessageId) (reason : String)
  | transactionAborted (listener reason : String)
  /-- There is nothing that could run the worker. -/
  | noRuntime
  /-- The worker was started before. -/
  | alreadyStarted
deriving Repr, DecidableEq

/-- The text of an error. -/
def Error.message : Error → String
  | listenerFailed m reason => "Listener failed on message " ++ toString m ++ ": " ++ reason
  | transactionAborted listener reason =>
    "Transaction aborted by listener " ++ listener ++ ": " ++ reason
  | noRuntime => "No tokio runtime available to run the delivery worker"
  | alreadyStarted => "Delivery worker already started"

/-- A queued message. -/
structure Envelope (L : Type) where
  message : Message L
  /-- When it was sent. -/
  sentAt : Nat
  delay : Nat

/-- The earliest time at which a message may be delivered, whether a clock
can tell it or not. -/
def Envelope.due {L : Type} (e : Envelope L) : Nat := e.sentAt + e.delay

/-- The same by a clock, which has no time after its horizon. -/
def Envelope.due? {L : Type} (e : Envelope L) (horizon : Nat) : Option Nat :=
  if e.due ≤ horizon then some e.due else none

theorem Envelope.isSome_due?_iff {L : Type} (e : Envelope L) (horizon : Nat) :
    (e.due? horizon).isSome ↔ e.due ≤ horizon := by
  unfold due?
  split <;> simp [*]

/-- A message that is sent when the bus has been idle for a period. -/
structure Tier where
  message : MessageId
  period : Nat
  lastFired : Nat
deriving Repr, DecidableEq

namespace Tier

/-- Whether the period has passed since the tier fired last. -/
def isDue (t : Tier) (now : Nat) : Bool := t.period ≤ now - t.lastFired

/-- The tier after a look at the clock. -/
def poll (t : Tier) (now : Nat) : Tier := if t.isDue now then { t with lastFired := now } else t

/-- The ids of the tiers whose periods have passed, in tier order. -/
def fired (tiers : List Tier) (now : Nat) : List MessageId :=
  (tiers.filter fun t => t.isDue now).map Tier.message

end Tier

/-- What the worker is doing. -/
inductive Worker (L : Type) where
  | unstarted
  /-- Started, but it has not run yet. -/
  | spawned
  /-- Waits for a message until a time. -/
  | waiting (tiers : List Tier) (deadline : Nat)
  /-- Holds a message until it is due. -/
  | holding (tiers : List Tier) (e : Envelope L)
  /-- Calls listeners. -/
  | calling
  /-- Ended after the queue was closed and empty. -/
  | finished
  /-- Ended by a panic; what is queued is lost. -/
  | failed

namespace Worker

variable {L : Type}

/-- Whether the worker was started and has not ended. -/
def isRunning : Worker L → Bool
  | .unstarted | .finished | .failed => false
  | _ => true

/-- Whether the worker waits for a message. -/
def isWaiting : Worker L → Bool
  | .waiting _ _ => true
  | _ => false

/-- The time that the worker waits for. -/
def deadline? : Worker L → Option Nat
  | .waiting _ deadline => some deadline
  | .holding _ e => some e.due
  | _ => none

end Worker

end Bus

/-- A message bus with listeners of type `L` and listeners within
transactions of type `T`. -/
structure Bus (L T : Type) where
  settings : Bus.Settings := {}
  listeners : Table String L := ∅
  transactional : Table String T := ∅
  /-- The messages to deliver, next one first. -/
  queue : List (Bus.Envelope L) := []
  /-- Whether the queue still takes messages. -/
  isOpen : Bool := true
  /-- The number of messages that were delivered from the queue. -/
  delivered : Nat := 0
  worker : Bus.Worker L := .unstarted
  /-- Whether the handle of the worker is there, by which one can wait for
  its end. -/
  hasHandle : Bool := false

namespace Bus

variable {L T : Type}

/-- Registers a listener, in place of one of its name. -/
def register (b : Bus L T) (name : String) (l : L) : Bus L T :=
  { b with listeners := b.listeners.insert name l }

/-- Drops a listener and tells whether there was one. -/
def unregister (b : Bus L T) (name : String) : Bool × Bus L T :=
  (b.listeners.contains name, { b with listeners := b.listeners.erase name })

/-- Registers a listener within transactions. -/
def registerTransactional (b : Bus L T) (name : String) (l : T) : Bus L T :=
  { b with transactional := b.transactional.insert name l }

/-- Drops a listener within transactions and tells whether there was
one. -/
def unregisterTransactional (b : Bus L T) (name : String) : Bool × Bus L T :=
  (b.transactional.contains name, { b with transactional := b.transactional.erase name })

/-- Whether a message for later would be taken: there is a listener, the
queue is open, and the worker has not panicked. -/
def accepts (b : Bus L T) : Bool :=
  !b.listeners.isEmpty && b.isOpen && match b.worker with
    | .failed => false
    | _ => true

/-- Queues a message for a delivery no earlier than `delay` from now, and
tells whether it was taken. -/
def send (b : Bus L T) (m : Message L) (delay now : Nat) : Bool × Bus L T :=
  if b.accepts then (true, { b with queue := b.queue ++ [⟨m, now, delay⟩] }) else (false, b)

/-- Queues the messages of a pack back to back and gives back how many
were taken. -/
def sendPack (b : Bus L T) (p : Pack L) (now : Nat) : Nat × Bus L T :=
  if b.accepts then
    (p.size, { b with queue := b.queue ++ p.parcels.map fun q => ⟨q.message, now, q.delay⟩ })
  else (0, b)

/-- Starts the worker, which needs something to run on. -/
def start (b : Bus L T) (hasRuntime : Bool) : Except Error (Bus L T) :=
  if !hasRuntime then .error .noRuntime
  else match b.worker with
    | .unstarted => .ok { b with worker := .spawned, hasHandle := true }
    | _ => .error .alreadyStarted

/-- Closes the queue: what is in it is still delivered. Whoever asks for
this takes the handle of the worker, if it is there; the flag tells
whether there is a worker to wait for. -/
def shutdown (b : Bus L T) : Bool × Bus L T :=
  (b.hasHandle, { b with isOpen := false, hasHandle := false })

/-- Whether the bus shows a running worker: not without its handle. -/
def isRunning (b : Bus L T) : Bool := b.hasHandle && b.worker.isRunning

/-- The number of messages in the queue. -/
def queueLength (b : Bus L T) : Nat := b.queue.length

/-- An accepted message stands at the end of the queue, and a refused one
nowhere. -/
theorem queue_send (b : Bus L T) (m : Message L) (delay now : Nat) :
    (b.send m delay now).2.queue
      = b.queue ++ if b.accepts then [⟨m, now, delay⟩] else [] := by
  unfold send
  split <;> simp [*]

end Bus

end Backplane
