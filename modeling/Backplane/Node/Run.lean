import Backplane.Node.Basic

/-!
# `Backplane.Node.Run`: when the tasks of a node run

Everything that can happen at one time happens before the clock moves on:
ready tasks run in the order in which they were woken, and tasks that
they wake run after them. The clock then jumps to the next timer. Numbers
named `fuel` bound the moves at one time, because scripted listeners can
keep a node busy forever; the clock of such a node does not move.
-/

set_option autoImplicit false

namespace Backplane.Node

/-- The most moves of the tasks at one time. -/
def maxMoves : Nat := 1000000

/-- Sets or drops the timer of a task. -/
def putTimer (n : Node) (t : Task) (time : Option Nat) : Node :=
  let timeline := match time with
    | some time => n.host.timeline.setTimer t time
    | none => n.host.timeline.cancel t
  { n with host := { n.host with timeline } }

/-- Notes the end of a lock call. -/
def finish (n : Node) (call : Lock.CallId) (result : Except Lock.Error Bool) : Node :=
  { n with host := { n.host with outcomes := n.host.outcomes ++ [⟨call, n.now, result⟩] } }

/-- Notes where a lock call stands after it has run. -/
def notePlace (n : Node) (name : Lock.CallId) : Except Lock.Error Lock.Progress → Node
  | .error e => (n.putTimer (.lockCall name) none).finish name (.error e)
  | .ok (.done granted) => (n.putTimer (.lockCall name) none).finish name (.ok granted)
  | .ok (.waiting c) => n.putTimer (.lockCall name) c.deadline

/-- Lets a lock call run. -/
def runCall (n : Node) (name : Lock.CallId) : Node :=
  match n.host.requests.lookup name with
  | some r =>
    let (progress, locks, woken) := n.host.locks.begin name r n.now
    let n : Node := { n with host := { n.host with
      requests := n.host.requests.filter fun q => q.1 ≠ name } }
    notePlace (putLocks n locks woken) name progress
  | none =>
    let (progress, locks, woken) := n.host.locks.resume name n.now
    (n.putLocks locks woken).notePlace name (.ok progress)

/-- Lets the delivery worker run. It is ready again if it has not come to
the end of its work. -/
def runWorker (n : Node) : Node :=
  let (moved, n) := Bus.run (call maxDepth) n.now maxMoves n
  if n.bus.hasWork (now n) then wake n .worker
  else if moved then putTimer n .worker n.bus.worker.deadline? else n

/-- Lets a task run. -/
def runTask (n : Node) : Task → Node
  | .lockCall name => n.runCall name
  | .worker => n.runWorker

/-- Lets the ready tasks run, and those that they wake. -/
def settleWithin : (fuel : Nat) → Node → Node
  | 0, n => n
  | fuel + 1, n =>
    match n.host.timeline.next? with
    | none => n
    | some (t, timeline) =>
      settleWithin fuel (runTask { n with host := { n.host with timeline } } t)

/-- Lets everything happen that can happen at the current time. -/
def settle (n : Node) : Node := settleWithin maxMoves n

/-- Moves the clock, which wakes the tasks whose times have come. It stops
at the last time that it can tell. -/
def moveTo (n : Node) (time : Nat) : Node :=
  { n with host := { n.host with
      timeline := n.host.timeline.moveTo (min time n.bus.settings.horizon) } }

/-- Lets everything happen up to a time, in the order of times. Each round
moves the clock, so that `fuel` need not exceed the distance. The clock
stands still for good if the tasks do not come to an end. -/
def advanceWithin : (fuel : Nat) → (time : Nat) → Node → Node
  | 0, _, n => n
  | fuel + 1, time, n =>
    let n := n.settle
    if !n.host.timeline.ready.isEmpty then n
    else match n.host.timeline.nextTime? with
      | some next =>
        if next ≤ time then advanceWithin fuel time (n.moveTo next) else (n.moveTo time).settle
      | none => (n.moveTo time).settle

/-- Lets a span of time pass. -/
def advance (n : Node) (span : Nat) : Node := advanceWithin (span + 2) (n.now + span) n

/-- Starts the delivery worker. -/
def start (n : Node) (hasRuntime : Bool) : Except Bus.Error Unit × Node :=
  match n.bus.start hasRuntime with
  | .error e => (.error e, n)
  | .ok bus => (.ok (), wake { n with bus } .worker)

/-- Lets time pass until the worker has ended. -/
def drainWithin : (fuel : Nat) → Node → Node
  | 0, n => n
  | fuel + 1, n =>
    let n := n.settle
    if n.bus.worker.isRunning && n.host.timeline.ready.isEmpty then
      match n.host.timeline.nextTime? with
      | some next => drainWithin fuel (n.moveTo next)
      | none => n
    else n

/-- Closes the queue of the bus and lets time pass until the worker has
ended, unless somebody waits for it already. -/
def shutdown (n : Node) : Node :=
  let (waits, bus) := n.bus.shutdown
  let n := wakeWorker { n with bus }
  if waits then drainWithin maxMoves n else n

/-- Begins a lock call under a name of its own. -/
def request (n : Node) (name : Lock.CallId) (r : Lock.Request) : Node :=
  wake { n with host := { n.host with requests := n.host.requests ++ [(name, r)] } }
    (.lockCall name)

/-- The lock calls that are not over, in the order of their names. -/
def pendingCalls (n : Node) : List Lock.CallId :=
  (Roster.ofList (n.host.requests.map Prod.fst ++ n.host.locks.calls.keys)).members

end Backplane.Node
