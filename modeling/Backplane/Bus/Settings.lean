import Backplane.Bus.Message

/-!
# `Backplane.Bus.Settings`: parameters of a message bus
-/

set_option autoImplicit false

namespace Backplane.Bus

/-- The parameters of a bus. Times are milliseconds. -/
structure Settings where
  /-- The delay of a message that is sent without one. -/
  defaultDelay : Nat := 300
  /-- How long the worker waits for a message before it looks at the idle
  tiers. -/
  idlePoll : Nat := 3000
  /-- Message ids with the periods after which they are sent. -/
  tiers : List (MessageId × Nat) :=
    [(MessageId.idle10, 600000), (MessageId.idle30, 1800000), (MessageId.idle60, 3600000)]
  /-- The time from which on a listener counts as slow. -/
  slowListener : Nat := 50
  /-- The last time that the clock of the bus can tell: the last millisecond of
  the last second that 63 bits can count. -/
  horizon : Nat := 9223372036854775807999
deriving Repr, DecidableEq, Inhabited

namespace Settings

/-- The shortest wait for a message. -/
def minIdlePoll : Nat := 10

/-- A wait, made at least as long as the shortest one. -/
def raisePoll (poll : Nat) : Nat := max poll minIdlePoll

/-- How long the worker really waits for a message. -/
def effectiveIdlePoll (s : Settings) : Nat := raisePoll s.idlePoll

/-- Short times, for trials. -/
def trial : Settings :=
  { defaultDelay := 30, idlePoll := 20,
    tiers := [(MessageId.idle10, 100), (MessageId.idle30, 200), (MessageId.idle60, 400)] }

end Settings

end Backplane.Bus
