import Backplane.Bus.Dispatch

/-!
# `Backplane.Bus.Delivery`: the worker of the queue

The worker takes messages strictly in order. It holds each one until it
is due and then dispatches it. When no message has come for the time of
one idle poll, it looks at the idle tiers and dispatches those whose
periods have passed. It ends when the queue is closed and empty, or by a
panic: of a post action, or when it takes a message that is due after the
last time that the clock can tell.
-/

set_option autoImplicit false

namespace Backplane.Bus

variable {L T W : Type}

/-- Sets what the worker is doing. -/
def Hosted.setWorker (s : Hosted L T W) (w : Worker L) : Hosted L T W :=
  { s with bus := { s.bus with worker := w } }

/-- The tiers at the start of the worker. -/
def freshTiers (b : Bus L T) (now : Nat) : List Tier :=
  b.settings.tiers.map fun (message, period) => ⟨message, period, now⟩

/-- Waits for the next message, for the time of one idle poll. -/
def await (tiers : List Tier) (now : Nat) (s : Hosted L T W) : Hosted L T W :=
  s.setWorker (.waiting tiers (now + s.bus.settings.effectiveIdlePoll))

/-- Dispatches the messages of the tiers that fire now. -/
def heartbeat (call : Caller L T W) (tiers : List Tier) (now : Nat) (s : Hosted L T W) :
    Hosted L T W :=
  let s := (Tier.fired tiers now).foldl (fun s id => (dispatch call { id } s).2)
    (s.setWorker .calling)
  await (tiers.map fun t => t.poll now) now s

/-- Dispatches a held message. -/
def deliver (call : Caller L T W) (tiers : List Tier) (e : Envelope L) (now : Nat)
    (s : Hosted L T W) : Hosted L T W :=
  match dispatch call e.message (s.setWorker .calling) with
  | (.error _, s) => s.setWorker .failed
  | (.ok _, s) => await tiers now { s with bus := { s.bus with delivered := s.bus.delivered + 1 } }

/-- One move of the worker; `none` if it has nothing to do now. -/
def move? (call : Caller L T W) (now : Nat) (s : Hosted L T W) : Option (Hosted L T W) :=
  match s.bus.worker with
  | .spawned => some (await (freshTiers s.bus now) now s)
  | .waiting tiers deadline =>
    match s.bus.queue with
    | e :: rest =>
      -- The message has left the queue before its time is worked out.
      some { s with bus := { s.bus with
        queue := rest
        worker := if (e.due? s.bus.settings.horizon).isSome then .holding tiers e else .failed } }
    | [] =>
      -- A closed queue ends the worker at once, whatever the idle poll.
      if !s.bus.isOpen then some (s.setWorker .finished)
      else if deadline ≤ now then some (heartbeat call tiers now s)
      else none
  | .holding tiers e => if e.due ≤ now then some (deliver call tiers e now s) else none
  | _ => none

/-- Whether the worker has something to do now. -/
def hasWork (b : Bus L T) (now : Nat) : Bool :=
  match b.worker with
  | .spawned => true
  | .waiting _ deadline => !b.queue.isEmpty || !b.isOpen || deadline ≤ now
  | .holding _ e => e.due ≤ now
  | _ => false

/-- The moves of the worker up to its next wait; `fuel` bounds their
number. The flag tells whether it moved at all. -/
def run (call : Caller L T W) (now : Nat) : Nat → Hosted L T W → Bool × Hosted L T W
  | 0, s => (false, s)
  | fuel + 1, s =>
    match move? call now s with
    | none => (false, s)
    | some s => (true, (run call now fuel s).2)

end Backplane.Bus
