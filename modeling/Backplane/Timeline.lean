/-!
# `Backplane.Timeline`: tasks that wait for each other and for the clock

A timeline is a virtual clock with the tasks that are ready to run, in
the order in which they were woken, and the timers of the tasks that
wait for a time, in the order in which they were set. It says when a task
runs and not what it does. The main statements:

* `mem_ready_wake`: waking adds a task and nothing else.
* `nodup_ready_wake`: no task is ready twice.
-/

set_option autoImplicit false

namespace Backplane

/-- A virtual clock with its ready tasks and its timers. -/
structure Timeline (τ : Type) where
  /-- Milliseconds since the start. -/
  now : Nat := 0
  /-- The tasks to run, next one first. -/
  ready : List τ := []
  /-- The waiting tasks with their times, in the order of setting. -/
  timers : List (τ × Nat) := []
deriving Repr

namespace Timeline

variable {τ : Type} [DecidableEq τ]

/-- Makes a task ready; one that is ready already keeps its place. -/
def wake (t : Timeline τ) (task : τ) : Timeline τ :=
  if task ∈ t.ready then t else { t with ready := t.ready ++ [task] }

/-- Makes tasks ready one after the other. -/
def wakeAll (t : Timeline τ) (tasks : List τ) : Timeline τ := tasks.foldl wake t

/-- Drops the timer of a task. -/
def cancel (t : Timeline τ) (task : τ) : Timeline τ :=
  { t with timers := t.timers.filter fun e => e.1 ≠ task }

/-- Sets the timer of a task, which then has no other. -/
def setTimer (t : Timeline τ) (task : τ) (time : Nat) : Timeline τ :=
  let t := t.cancel task
  { t with timers := t.timers ++ [(task, time)] }

/-- The next task to run. -/
def next? (t : Timeline τ) : Option (τ × Timeline τ) :=
  match t.ready with
  | [] => none
  | task :: rest => some (task, { t with ready := rest })

/-- The earliest time of a timer. -/
def nextTime? (t : Timeline τ) : Option Nat := (t.timers.map Prod.snd).min?

/-- Moves the clock and wakes the tasks whose times have come, in the
order in which they set their timers. -/
def moveTo (t : Timeline τ) (time : Nat) : Timeline τ :=
  let due := t.timers.filter fun e => e.2 ≤ time
  let t := { t with now := time, timers := t.timers.filter fun e => ¬ e.2 ≤ time }
  t.wakeAll (due.map Prod.fst)

/-- Waking adds a task and nothing else. -/
theorem mem_ready_wake (t : Timeline τ) (a b : τ) :
    b ∈ (t.wake a).ready ↔ b = a ∨ b ∈ t.ready := by
  unfold wake
  split
  · rename_i h
    exact ⟨.inr, fun hb => hb.elim (fun e => e ▸ h) id⟩
  · simp [or_comm]

/-- No task is ready twice. -/
theorem nodup_ready_wake {t : Timeline τ} (h : t.ready.Nodup) (a : τ) :
    (t.wake a).ready.Nodup := by
  unfold wake
  split
  · exact h
  · rename_i hn
    rw [List.nodup_append]
    refine ⟨h, by simp, fun x hx y hy e => ?_⟩
    rw [List.mem_singleton] at hy
    exact hn (hy ▸ e ▸ hx)

end Timeline

end Backplane
