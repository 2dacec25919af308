import Backplane.Bus.Dispatch
import Backplane.Lock.Call

/-!
# `Backplane.Node.Listener`: the listeners of a node

A node has two listeners of its own, which keep the lock service and the
access service in step with the bus, and any number of scripted ones. A
script is a list of rules; the first rule that fits the message gives
actions to take and the way to end the call.
-/

set_option autoImplicit false

namespace Backplane.Node

open Bus (MessageId Originator)

/-- How a rule ends a call. -/
inductive Verdict where
  | code (n : Int)
  | failure (reason : String)
  | abort (reason : String)
  | panic (text : String)
deriving Repr, DecidableEq

mutual

/-- A listener. -/
inductive Listener where
  /-- Follows a script. It writes every call to the log, with the values
  of some keys. -/
  | scripted (name : String) (rules : List Rule) (keys : List String)
  /-- Collects free locks after ten idle minutes. -/
  | lockCollector
  /-- Keeps the sessions of the access service. -/
  | sessionKeeper

/-- A rule for some messages, or for all. -/
inductive Rule where
  | mk (ids : Option (List MessageId)) (actions : List Action) (verdict : Verdict)

/-- Something that a script does. -/
inductive Action where
  /-- Reads a text from the context. -/
  | readText (key : String)
  /-- Reads an integer from the context. -/
  | readSigned (key : String)
  | register (name : String) (l : Listener)
  | unregister (name : String)
  /-- Dispatches a message. -/
  | send (id : MessageId) (originator : Originator) (context : Bus.Context Listener)
  /-- Queues a message. -/
  | post (id : MessageId) (delay : Option Nat) (context : Bus.Context Listener)
  | unlock (resourceType : String) (id : Int) (user : Int)
  /-- Adds to the journal of the transaction. -/
  | journal (v : Json)

end

instance : Inhabited Listener := ⟨.lockCollector⟩

instance : Inhabited Rule := ⟨.mk none [] (.code 0)⟩

instance : Inhabited Action := ⟨.readText ""⟩

/-- Whether a rule is for a message. -/
def Rule.fits : Rule → MessageId → Bool
  | .mk none _ _, _ => true
  | .mk (some ids) _ _, id => ids.contains id

/-- How a verdict of a listener on a message ends the call. -/
def Verdict.reply (v : Verdict) (listener : String) (id : MessageId) : Bus.Reply :=
  match v with
  | .code n => .code n
  | .failure reason => .failure (.listenerFailed id reason)
  | .abort reason => .failure (.transactionAborted listener reason)
  | .panic text => .panic text

/-- The name under which the lock collector is registered. -/
def lockCollectorName : String := "lock-service.gc"

/-- The name under which the session keeper is registered. -/
def sessionKeeperName : String := "token-auth.sessions"

end Backplane.Node
