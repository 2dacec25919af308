import Backplane.Data.Runs
import Backplane.Node.Basic

/-!
# `Backplane.Node.Report`: what happened, in a fixed order

When several clients leave at once, or a client with several attributes
is cleared, the news of it comes about in an order that means nothing. A
report sorts such news, so that equal runs give equal reports.
-/

set_option autoImplicit false

namespace Backplane

/-- Whether a notice comes before another or is its equal: by the name of
the attribute, then by the listener. -/
def Access.Notice.precedes (a b : Access.Notice) : Bool :=
  ((compare a.name b.name).then (compare a.listener b.listener)).isLE

/-- Notices with those that leave together sorted. -/
def Access.Notice.report (notices : List Access.Notice) : List Access.Notice :=
  sortRuns (fun n => !n.bound) precedes notices

namespace Node.Entry

/-- Whether a listener was called because a client is gone. -/
def tellsRemoval : Entry → Bool
  | .called _ _ id _ _ => id == .tokenRemoved
  | .got _ _ => false

/-- The time of a call. -/
def time : Entry → Nat
  | .called time _ _ _ _ => time
  | .got _ _ => 0

/-- The listener of an entry. -/
def listener : Entry → String
  | .called _ listener _ _ _ => listener
  | .got listener _ => listener

/-- The client id among the values of a call. -/
def clientId : Entry → String
  | .called _ _ _ _ values => ((values.lookup Bus.keys.clientId).bind Json.text?).getD ""
  | .got _ _ => ""

/-- Whether an entry comes before another or is its equal: by time, then
by the listener, then by the client. -/
def precedes (a b : Entry) : Bool :=
  ((compare a.time b.time).then
    ((compare a.listener b.listener).then (compare a.clientId b.clientId))).isLE

/-- A log with the calls for clients that leave together sorted. -/
def report (log : List Entry) : List Entry := sortRuns tellsRemoval precedes log

end Node.Entry

end Backplane
