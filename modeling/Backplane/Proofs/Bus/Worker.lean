import Backplane.Bus.Delivery
import Backplane.Proofs.Bus.Operation
import Mathlib.Logic.Function.Iterate

/-!
# `Backplane.Proofs.Bus.Worker`: what the worker of a bus can do

Which move the worker makes depends on the bus and on the time alone. Here
the moves have names, `Deed`, and each of them says what it leaves of the
bus. The main statements:

* `move?_eq`: a move is one of six deeds, and the bus says which.
* `run_eq_iterate`: the worker runs by one move after the other.
* `Works`, `works_perform`: the state of a bus after each deed, with
  whatever the listeners have done to it.
* `Works.takes`: a deed dispatches or loses the first of the messages that are
  pending, or none, and new ones come last.
-/

set_option autoImplicit false

namespace Backplane.Bus

variable {L T W : Type}

/-- What the worker does in one move. -/
inductive Deed (L : Type) where
  /-- Waits for the first message. -/
  | begin
  /-- Takes the next message out of the queue. -/
  | take (tiers : List Tier) (e : Envelope L)
  /-- Takes the next message and panics, because it is due after the last time
  that the clock can tell. -/
  | lose (e : Envelope L)
  /-- Dispatches the message that it holds. -/
  | deliver (tiers : List Tier) (e : Envelope L)
  /-- Looks at the idle tiers and dispatches those that fire. -/
  | poll (tiers : List Tier)
  | finish

/-- What the worker does next, if it has anything to do now. -/
def deed? (b : Bus L T) (now : Nat) : Option (Deed L) :=
  match b.worker with
  | .spawned => some .begin
  | .waiting tiers deadline =>
    match b.queue with
    | e :: _ => some (if (e.due? b.settings.horizon).isSome then .take tiers e else .lose e)
    | [] =>
      if !b.isOpen then some .finish
      else if deadline ≤ now then some (.poll tiers)
      else none
  | .holding tiers e => if e.due ≤ now then some (.deliver tiers e) else none
  | _ => none

theorem hasWork_eq (b : Bus L T) (now : Nat) : b.hasWork now = (b.deed? now).isSome := by
  unfold hasWork deed?
  cases b.worker with
  | waiting tiers deadline =>
    cases b.queue with
    | cons e rest => rfl
    | nil =>
      by_cases hdeadline : deadline ≤ now <;> cases b.isOpen <;> simp [hdeadline]
  | holding tiers e => by_cases hdue : e.due ≤ now <;> simp [hdue]
  | _ => rfl

/-- A worker at rest has work again when the time comes that it waits for. -/
theorem hasWork_iff {b : Bus L T} {now : Nat} (hrest : b.hasWork now = false) (t : Nat) :
    b.hasWork t = true ↔ ∃ d, b.worker.deadline? = some d ∧ d ≤ t := by
  unfold hasWork at hrest ⊢
  cases hw : b.worker with
  | spawned =>
    rw [hw] at hrest
    cases hrest
  | waiting tiers deadline =>
    rw [hw] at hrest
    simp only [Bool.or_eq_false_iff] at hrest
    simp [hrest.1.1, hrest.1.2, Worker.deadline?]
  | holding tiers e => simp [Worker.deadline?]
  | unstarted | calling | finished | failed => simp [Worker.deadline?]

/-- A worker that waits for messages has to end when the bus is shut down. -/
theorem hasWork_shutdown (b : Bus L T) (now : Nat) :
    b.shutdown.2.hasWork now = (b.worker.isWaiting || b.hasWork now) := by
  unfold hasWork shutdown
  cases b.worker with
  | waiting tiers deadline => simp [Worker.isWaiting]
  | _ => rfl

/-- Does it. -/
def perform (call : Caller L T W) (now : Nat) (s : Hosted L T W) : Deed L → Hosted L T W
  | .begin => await (freshTiers s.bus now) now s
  | .take tiers e =>
    { s with bus := { s.bus with queue := s.bus.queue.tail, worker := .holding tiers e } }
  | .lose _ => { s with bus := { s.bus with queue := s.bus.queue.tail, worker := .failed } }
  | .deliver tiers e => deliver call tiers e now s
  | .poll tiers => heartbeat call tiers now s
  | .finish => s.setWorker .finished

/-- A move of the worker is a deed, and the bus says which. -/
theorem move?_eq (call : Caller L T W) (now : Nat) (s : Hosted L T W) :
    move? call now s = (s.bus.deed? now).map (perform call now s) := by
  unfold move? deed?
  cases s.bus.worker with
  | waiting tiers deadline =>
    cases hq : s.bus.queue with
    | cons e rest =>
      simp only
      split <;> simp only [Option.map_some, perform, hq, List.tail_cons]
    | nil =>
      simp only
      split
      · rfl
      · split <;> rfl
  | holding tiers e =>
    simp only
    split <;> rfl
  | _ => rfl

/-- One move of the worker, if it has one to make. -/
def moveOnce (call : Caller L T W) (now : Nat) (s : Hosted L T W) : Hosted L T W :=
  (move? call now s).getD s

/-- The worker runs by one move after the other. -/
theorem run_eq_iterate (call : Caller L T W) (now fuel : Nat) (s : Hosted L T W) :
    ∃ n, (run call now fuel s).2 = (moveOnce call now)^[n] s := by
  induction fuel generalizing s with
  | zero => exact ⟨0, rfl⟩
  | succ fuel ih =>
    rw [run]
    cases hmove : move? call now s with
    | none => exact ⟨0, rfl⟩
    | some s' =>
      obtain ⟨n, hn⟩ := ih s'
      refine ⟨n + 1, ?_⟩
      have honce : moveOnce call now s = s' := by rw [moveOnce, hmove, Option.getD_some]
      rw [Function.iterate_succ_apply, honce]
      exact hn

/-- The bus with another state of its worker. -/
def withWorker (b : Bus L T) (w : Worker L) : Bus L T := { b with worker := w }

theorem bus_await (tiers : List Tier) (now : Nat) (s : Hosted L T W) :
    (await tiers now s).bus
      = s.bus.withWorker (.waiting tiers (now + s.bus.settings.effectiveIdlePoll)) :=
  rfl

/-- How a deed leaves a bus. -/
inductive Works (now : Nat) (b : Bus L T) : Deed L → Bus L T → Prop where
  | began (hw : b.worker = .spawned) :
      Works now b .begin
        (b.withWorker (.waiting (freshTiers b now) (now + b.settings.effectiveIdlePoll)))
  | took {tiers : List Tier} {deadline : Nat} {e : Envelope L} {rest : List (Envelope L)}
      (hw : b.worker = .waiting tiers deadline) (hq : b.queue = e :: rest)
      (hintime : e.due ≤ b.settings.horizon) :
      Works now b (.take tiers e) { b with queue := rest, worker := .holding tiers e }
  /-- The message is due after the horizon of the clock. -/
  | lost {tiers : List Tier} {deadline : Nat} {e : Envelope L} {rest : List (Envelope L)}
      (hw : b.worker = .waiting tiers deadline) (hq : b.queue = e :: rest)
      (hbeyond : b.settings.horizon < e.due) :
      Works now b (.lose e) { b with queue := rest, worker := .failed }
  /-- The dispatch is over, and the worker waits again. -/
  | delivered {tiers : List Tier} {e : Envelope L} {b₁ : Bus L T}
      (hw : b.worker = .holding tiers e) (hdue : e.due ≤ now)
      (hgrows : Grows now (b.withWorker .calling) b₁) :
      Works now b (.deliver tiers e) ({ b₁ with delivered := b.delivered + 1 }.withWorker
        (.waiting tiers (now + b.settings.effectiveIdlePoll)))
  /-- A post action has panicked. -/
  | failed {tiers : List Tier} {e : Envelope L} {b₁ : Bus L T}
      (hw : b.worker = .holding tiers e) (hdue : e.due ≤ now)
      (hgrows : Grows now (b.withWorker .calling) b₁) :
      Works now b (.deliver tiers e) (b₁.withWorker .failed)
  | polled {tiers : List Tier} {deadline : Nat} {b₁ : Bus L T}
      (hw : b.worker = .waiting tiers deadline) (hq : b.queue = []) (hopen : b.isOpen = true)
      (hdeadline : deadline ≤ now) (hgrows : Grows now (b.withWorker .calling) b₁) :
      Works now b (.poll tiers) (b₁.withWorker
        (.waiting (tiers.map fun t => t.poll now) (now + b.settings.effectiveIdlePoll)))
  | finished {tiers : List Tier} {deadline : Nat} (hw : b.worker = .waiting tiers deadline)
      (hq : b.queue = []) (hclosed : b.isOpen = false) :
      Works now b .finish (b.withWorker .finished)

/-- The message that a deed dispatches. -/
def Deed.delivery? : Deed L → Option (Envelope L)
  | .deliver _ e => some e
  | _ => none

/-- The message that a deed loses. -/
def Deed.loss? : Deed L → Option (Envelope L)
  | .lose e => some e
  | _ => none

/-- The messages in the hands of a worker. -/
def Worker.held : Worker L → List (Envelope L)
  | .holding _ e => [e]
  | _ => []

/-- The messages that a bus has taken and its worker has neither dispatched nor
lost. -/
def pending (b : Bus L T) : List (Envelope L) := b.worker.held ++ b.queue

/-- Between two states of a bus at one time, messages have been taken: they
stand behind those that were there. -/
structure Takes (now : Nat) (b b' : Bus L T) (rest sent : List (Envelope L)) : Prop where
  pending_eq : b'.pending = rest ++ sent
  drop_queue : b'.queue.drop b.queue.length = sent
  sentAt_eq : ∀ e ∈ sent, e.sentAt = now
  refused : b.isOpen = false ∨ b.worker = .failed → sent = []

variable {now : Nat} {b b₁ b' : Bus L T}

theorem Grows.takes (h : Grows now b b') : ∃ sent, Takes now b b' b.pending sent := by
  obtain ⟨sent, hqueue, hsent, hrefused⟩ := h.queue
  refine ⟨sent, ?_, by rw [hqueue, List.drop_left], hsent, hrefused⟩
  have hheld : b'.worker.held = b.worker.held := by
    rcases h.worker with hw | ⟨hw, hw'⟩
    · rw [hw]
    · rw [hw, hw']
      rfl
  unfold pending
  rw [hheld, hqueue, List.append_assoc]

/-- A dispatch by the worker, which holds no message while it calls. -/
theorem Grows.takes_calling (h : Grows now (b.withWorker .calling) b₁) {es : List (Envelope L)}
    (hw : b.worker ≠ .failed) (hpending : b.pending = es ++ b.queue) (hqueue : b'.queue = b₁.queue)
    (hheld : b'.worker.held = []) :
    ∃ rest sent, b.pending = es ++ rest ∧ Takes now b b' rest sent := by
  obtain ⟨sent, hsentqueue, hsent, hrefused⟩ := h.queue
  change b₁.queue = b.queue ++ sent at hsentqueue
  refine ⟨b.queue, sent, hpending, ?_, by rw [hqueue, hsentqueue, List.drop_left], hsent,
    fun hrefuses => hrefused (.inl (hrefuses.resolve_right hw))⟩
  unfold pending
  rw [hheld, hqueue, hsentqueue]
  rfl

/-- A deed dispatches or loses the first of the messages that are pending, or
none. -/
theorem Works.takes {d : Deed L} (h : Works now b d b') :
    ∃ rest sent, b.pending = d.delivery?.toList ++ (d.loss?.toList ++ rest) ∧
      Takes now b b' rest sent := by
  -- Without a dispatch nothing is taken.
  have hnothing : ∀ {b' : Bus L T}, b'.pending = b.pending → b'.queue.length ≤ b.queue.length →
      Takes now b b' b.pending [] := fun hpending hlength =>
    ⟨hpending.trans (List.append_nil _).symm, List.drop_eq_nil_of_le hlength, by simp, fun _ => rfl⟩
  cases h with
  | began hw =>
    refine ⟨b.pending, [], rfl, hnothing ?_ (Nat.le_refl _)⟩
    unfold pending
    rw [hw]
    rfl
  | took hw hq _ =>
    refine ⟨b.pending, [], rfl, hnothing ?_ ?_⟩
    · unfold pending
      rw [hw, hq]
      rfl
    · rw [hq]
      exact Nat.le_succ _
  | @lost tiers deadline e rest hw hq _ =>
    refine ⟨rest, [], ?_, (List.append_nil _).symm, List.drop_eq_nil_of_le ?_, by simp,
      fun _ => rfl⟩
    · unfold pending
      rw [hw, hq]
      rfl
    · rw [hq]
      exact Nat.le_succ _
  | delivered hw hdue hgrows | failed hw hdue hgrows =>
    -- The message that is dispatched was held in front of the queue.
    refine hgrows.takes_calling (by rw [hw]; exact fun heq => nomatch heq) ?_ rfl rfl
    unfold pending
    rw [hw]
    rfl
  | polled hw hq hopen hdeadline hgrows =>
    refine hgrows.takes_calling (by rw [hw]; exact fun heq => nomatch heq) ?_ rfl rfl
    unfold pending
    rw [hw]
    rfl
  | finished hw hq hclosed =>
    refine ⟨b.pending, [], rfl, hnothing ?_ (Nat.le_refl _)⟩
    unfold pending
    rw [hw]
    rfl

/-- Only a worker that was started does anything. -/
theorem Works.started {d : Deed L} (h : Works now b d b') :
    b.worker ≠ .unstarted ∧ b'.worker ≠ .unstarted := by
  cases h with
  | began hw | took hw _ _ | lost hw _ _ | delivered hw _ _ | failed hw _ _ | polled hw _ _ _ _
  | finished hw _ _ =>
    rw [hw]
    exact ⟨fun heq => (nomatch heq), fun heq => nomatch heq⟩

/-- Between two deeds it is not in a call. -/
theorem Works.not_calling {d : Deed L} (h : Works now b d b') : b'.worker ≠ .calling := by
  cases h <;> exact fun heq => nomatch heq

/-- A worker that has ended does nothing. -/
theorem Works.isRunning {d : Deed L} (h : Works now b d b') : b.worker.isRunning = true := by
  cases h with
  | began hw | took hw _ _ | lost hw _ _ | delivered hw _ _ | failed hw _ _ | polled hw _ _ _ _
  | finished hw _ _ =>
    rw [hw]
    rfl

theorem Works.closed {d : Deed L} (h : Works now b d b') (hclosed : b.isOpen = false) :
    b'.isOpen = false := by
  cases h with
  | delivered _ _ hgrows | failed _ _ hgrows | polled _ _ _ _ hgrows => exact hgrows.closed hclosed
  | began | took | lost | finished => exact hclosed

theorem Works.settings_eq {d : Deed L} (h : Works now b d b') : b'.settings = b.settings := by
  cases h with
  | delivered _ _ hgrows | failed _ _ hgrows | polled _ _ _ _ hgrows => exact hgrows.settings_eq
  | began | took | lost | finished => rfl

/-- A handle that was taken does not come back. -/
theorem Works.taken {d : Deed L} (h : Works now b d b') (htaken : b.hasHandle = false) :
    b'.hasHandle = false := by
  cases h with
  | delivered _ _ hgrows | failed _ _ hgrows | polled _ _ _ _ hgrows =>
    exact hgrows.taken (fun heq => nomatch heq) htaken
  | began | took | lost | finished => exact htaken

theorem Works.joinable {d : Deed L} (h : Works now b d b') (hjoinable : b.Joinable) :
    b'.Joinable := by
  have hstarted := h.started.1
  have hcalling : (b.withWorker .calling).Joinable := fun _ => hjoinable hstarted
  cases h with
  | delivered _ _ hgrows | failed _ _ hgrows | polled _ _ _ _ hgrows =>
    have hw : (b.withWorker .calling).worker ≠ .unstarted := fun heq => nomatch heq
    exact fun _ => hgrows.joinable hcalling (hgrows.worker_eq hw ▸ hw)
  | began | took | lost | finished => exact fun _ => hjoinable hstarted

/-- Whether the dispatch of a message to the listeners of a bus ends by the
panic of a post action. -/
def Panics (call : Caller L T W) (s : Hosted L T W) (e : Envelope L) : Prop :=
  ∃ text, (dispatch call e.message (s.setWorker .calling)).1 = .error text

namespace Stage

/-- A deed takes no time. -/
theorem clock_perform (S : Stage L T W) (now : Nat) (s : Hosted L T W) (d : Deed L) :
    S.clock (perform S.call now s d).host = S.clock s.host := by
  cases d with
  | deliver tiers e =>
    have hreaches := rel_dispatch S.reaches_call e.message (s.setWorker .calling)
    show S.clock (deliver S.call tiers e now s).host = _
    unfold deliver
    split
    · rename_i heq
      rw [heq] at hreaches
      exact hreaches.clock_eq
    · rename_i heq
      rw [heq] at hreaches
      exact hreaches.clock_eq
  | poll tiers =>
    have hreaches := rel_foldl_dispatch S.reaches_call (Tier.fired tiers now)
      (s.setWorker .calling)
    exact hreaches.clock_eq
  | _ => rfl

/-- A delivery fails if and only if a post action panics. -/
theorem works_deliver (S : Stage L T W) {s : Hosted L T W} {tiers : List Tier} {e : Envelope L}
    (hw : s.bus.worker = .holding tiers e) (hdue : e.due ≤ S.clock s.host) :
    Works (S.clock s.host) s.bus (.deliver tiers e)
        (deliver S.call tiers e (S.clock s.host) s).bus ∧
      ((deliver S.call tiers e (S.clock s.host) s).bus.worker = .failed ↔ Panics S.call s e) := by
  have hgrows := (rel_dispatch S.reaches_call e.message (s.setWorker .calling)).grows
  unfold deliver
  split
  · rename_i text s₁ heq
    rw [heq] at hgrows
    exact ⟨.failed hw hdue hgrows, fun _ => ⟨text, by rw [heq]⟩, fun _ => rfl⟩
  · rename_i code s₁ heq
    rw [heq] at hgrows
    have hdelivered : s₁.bus.delivered = s.bus.delivered := hgrows.delivered_eq
    have hsettings : s₁.bus.settings = s.bus.settings := hgrows.settings_eq
    refine ⟨?_, fun h => (nomatch h), fun ⟨text, htext⟩ => ?_⟩
    · rw [bus_await, hdelivered, hsettings]
      exact .delivered hw hdue hgrows
    · rw [heq] at htext
      cases htext

/-- A look at the tiers dispatches those that fire, and the next wait
begins. -/
theorem works_poll (S : Stage L T W) {s : Hosted L T W} {tiers : List Tier} {deadline : Nat}
    (hw : s.bus.worker = .waiting tiers deadline) (hq : s.bus.queue = [])
    (hopen : s.bus.isOpen = true) (hdeadline : deadline ≤ S.clock s.host) :
    Works (S.clock s.host) s.bus (.poll tiers)
      (heartbeat S.call tiers (S.clock s.host) s).bus := by
  have hgrows := (rel_foldl_dispatch S.reaches_call (Tier.fired tiers (S.clock s.host))
    (s.setWorker .calling)).grows
  show Works _ _ _ (await _ _ _).bus
  rw [bus_await, hgrows.settings_eq]
  exact .polled hw hq hopen hdeadline hgrows

/-- What each deed leaves of the bus. -/
theorem works_perform (S : Stage L T W) {s : Hosted L T W} {d : Deed L}
    (hd : s.bus.deed? (S.clock s.host) = some d) :
    Works (S.clock s.host) s.bus d (perform S.call (S.clock s.host) s d).bus ∧
      ∀ tiers e, d = .deliver tiers e →
        ((perform S.call (S.clock s.host) s d).bus.worker = .failed ↔ Panics S.call s e) := by
  unfold deed? at hd
  -- The cases are those of `deed?`, in its order.
  split at hd
  · rename_i hw
    cases hd
    exact ⟨.began hw, fun _ _ h => nomatch h⟩
  · rename_i tiers deadline hw
    split at hd
    · -- There is a message to take.
      rename_i e rest hq
      split at hd
      · rename_i hdue
        cases hd
        refine ⟨?_, fun _ _ h => nomatch h⟩
        show Works _ _ _ { s.bus with queue := s.bus.queue.tail, worker := .holding tiers e }
        rw [hq]
        exact .took hw hq ((e.isSome_due?_iff _).mp hdue)
      · rename_i hdue
        cases hd
        refine ⟨?_, fun _ _ h => nomatch h⟩
        show Works _ _ _ { s.bus with queue := s.bus.queue.tail, worker := .failed }
        rw [hq]
        exact .lost hw hq (Nat.lt_of_not_le (mt (e.isSome_due?_iff _).mpr hdue))
    · rename_i hq
      split at hd
      · -- Nothing is left, and nothing will come.
        rename_i hclosed
        cases hd
        exact ⟨.finished hw hq (by simpa using hclosed), fun _ _ h => nomatch h⟩
      · rename_i hopen
        split at hd
        · -- The wait is over.
          rename_i hdeadline
          cases hd
          exact ⟨S.works_poll hw hq (by simpa using hopen) hdeadline, fun _ _ h => nomatch h⟩
        · cases hd
  · rename_i tiers e hw
    split at hd
    · -- The message that the worker holds is due.
      rename_i hdue
      cases hd
      obtain ⟨hworks, hfails⟩ := S.works_deliver hw hdue
      refine ⟨hworks, ?_⟩
      rintro _ _ ⟨⟩
      exact hfails
    · cases hd
  · cases hd

end Stage

end Backplane.Bus
