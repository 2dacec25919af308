import Backplane.Proofs.Bus.History

/-!
# `Backplane.Proofs.Bus.Drain`: a bus that is shut down

A bus that is shut down takes no more messages. Its worker dispatches what
is left and ends. The call takes the handle of the worker and returns when
the worker has ended; a call that finds no handle, because another one has
taken it, returns at once. When a call returns, the worker should have
dispatched and counted every message, whatever the listeners and post actions
of the messages do: `Drained` states this. A listener that fails or panics does
no harm. But a post action that panics takes the worker with it, and so does a
message that is due after the last time of the clock, and what is queued behind
such a message is lost. The main statements:

* `toDo_lt`, `exists_ended`: after the queue is closed, every move of the
  worker leaves less to do, and the worker ends.
* `drained_iff`: all messages have been dispatched and counted if and only if
  no post action has panicked in a dispatch of the worker, the clock can tell
  when each of them is due, and none is pending.
* `shutdown_drains_iff`: the last of these is so when a call returns that has
  waited for the worker. Nothing that is sent later is taken.
* `not_always_drained`: otherwise messages are lost.
-/

set_option autoImplicit false

namespace Backplane.Bus

variable {L T W : Type}

/-! ### The end of the worker -/

/-- What a worker has to do until it ends, if nothing more is sent. -/
def toDo (b : Bus L T) : Nat :=
  match b.worker with
  | .spawned | .holding _ _ => 2 * b.queue.length + 2
  | .waiting _ _ => 2 * b.queue.length + 1
  | _ => 0

variable {now : Nat} {b b₁ b' : Bus L T}

/-- A dispatch by the worker of a closed bus leaves the queue alone. -/
theorem Grows.queue_eq_of_closed (h : Grows now b b') (hclosed : b.isOpen = false) :
    b'.queue = b.queue := by
  obtain ⟨sent, hqueue, _, hrefused⟩ := h.queue
  rw [hqueue, hrefused (.inl hclosed), List.append_nil]

/-- After the queue is closed, every deed of the worker leaves less to do. -/
theorem toDo_lt {d : Deed L} (h : Works now b d b') (hclosed : b.isOpen = false) :
    b'.toDo < b.toDo := by
  unfold toDo
  cases h with
  | began hw =>
    rw [hw]
    exact Nat.lt_succ_self _
  -- To take a message and to dispatch it are two deeds, so a message in the
  -- queue counts twice.
  | took hw hq _ =>
    rw [hw, hq]
    simp only [List.length_cons]
    omega
  | lost hw _ _ =>
    rw [hw]
    exact Nat.succ_pos _
  | delivered hw _ hgrows =>
    have hqueue := hgrows.queue_eq_of_closed hclosed
    rw [hw]
    simp only [withWorker] at hqueue ⊢
    rw [hqueue]
    omega
  | failed hw _ _ =>
    rw [hw]
    exact Nat.succ_pos _
  | polled _ _ hopen _ _ =>
    -- Looks at the tiers are over after a close.
    rw [hclosed] at hopen
    cases hopen
  | finished hw _ _ =>
    rw [hw]
    exact Nat.succ_pos _

/-- A worker that has not ended, and has nothing to do on a closed bus, holds
a message that is not due yet. -/
theorem holding_of_rest {now : Nat} (hrest : b.deed? now = none) (hclosed : b.isOpen = false)
    (hcalling : b.worker ≠ .calling) (hrunning : b.worker.isRunning = true) :
    ∃ tiers e, b.worker = .holding tiers e ∧ now < e.due := by
  unfold deed? at hrest
  generalize b.worker = w at hrest hcalling hrunning
  cases w with
  | spawned => cases hrest
  | waiting tiers deadline =>
    -- There is a message to take, or the worker ends.
    cases hq : b.queue with
    | cons e rest =>
      rw [hq] at hrest
      cases hrest
    | nil =>
      rw [hq, hclosed] at hrest
      cases hrest
  | holding tiers e =>
    refine ⟨tiers, e, rfl, Nat.lt_of_not_le fun hdue => ?_⟩
    simp only [if_pos hdue] at hrest
    cases hrest
  | calling => exact absurd rfl hcalling
  | unstarted | finished | failed => cases hrunning

/-- The clock can tell when a message is due that a worker holds. -/
theorem Works.due_le {d : Deed L} (h : Works now b d b') {e : Envelope L}
    (he : e ∈ b'.worker.held) : e.due ≤ b.settings.horizon := by
  cases h with
  | took _ _ hintime =>
    rw [List.mem_singleton.mp he]
    exact hintime
  | began | lost | delivered | failed | polled | finished => cases he

/-- The queue is closed, and the worker, which was started, has ended. -/
structure Ended (b : Bus L T) : Prop where
  started : b.worker ≠ .unstarted
  closed : b.isOpen = false
  ended : b.worker.isRunning = false

namespace Stage

variable (S : Stage L T W) {s : Hosted L T W}

/-- If the worker can do something, it does so when it is let run. -/
theorem works_step {d : Deed L} (hd : s.bus.deed? (S.clock s.host) = some d) :
    Works (S.clock s.host) s.bus d (S.step s .work).bus := by
  show Works _ _ _ (moveOnce S.call (S.clock s.host) s).bus
  rw [moveOnce, move?_eq, hd]
  exact (S.works_perform hd).1

/-- Time may pass until the held message is due. -/
theorem exists_wait {tiers : List Tier} {e : Envelope L} (hw : s.bus.worker = .holding tiers e)
    (hdue : S.clock s.host < e.due) (hintime : e.due ≤ s.bus.settings.horizon) :
    ∃ w, S.step s (.around w) = { s with host := w } ∧ S.clock w = e.due := by
  obtain ⟨w, hclock⟩ := S.exists_clock s.host e.due
  refine ⟨w, if_pos ?_, hclock⟩
  have hrest : s.bus.deed? (S.clock s.host) = none := by
    unfold deed?
    rw [hw]
    exact if_neg (Nat.not_le_of_lt hdue)
  simp [allows, hrest, hw, Worker.deadline?, hclock, hdue, hintime]

/-- From every state in which the bus is closed, some events lead to the end
of the worker. -/
theorem exists_ended (hstarted : s.bus.worker ≠ .unstarted) (hclosed : s.bus.isOpen = false)
    (hcalling : s.bus.worker ≠ .calling)
    (hheld : ∀ e ∈ s.bus.worker.held, e.due ≤ s.bus.settings.horizon) :
    ∃ es : List (Event L T W), (es.foldl S.step s).bus.Ended := by
  induction hn : s.bus.toDo using Nat.strong_induction_on generalizing s with
  | _ n ih =>
    -- Any deed leaves less to do.
    have hwork : ∀ {s₁ : Hosted L T W} {d : Deed L}, s₁.bus = s.bus →
        s₁.bus.deed? (S.clock s₁.host) = some d →
        ∃ es : List (Event L T W), (es.foldl S.step s₁).bus.Ended := by
      intro s₁ d hbus hd
      have hworks := S.works_step hd
      rw [hbus] at hworks
      obtain ⟨es, hes⟩ := ih _ (hn ▸ toDo_lt hworks hclosed) hworks.started.2
        (hworks.closed hclosed) hworks.not_calling
        (fun e he => hworks.settings_eq ▸ hworks.due_le he) rfl
      exact ⟨.work :: es, hes⟩
    cases hrunning : s.bus.worker.isRunning with
    | false => exact ⟨[], hstarted, hclosed, hrunning⟩
    | true =>
      cases hd : s.bus.deed? (S.clock s.host) with
      | some d => exact hwork rfl hd
      | none =>
        -- Time passes until the message is due that the worker holds.
        obtain ⟨tiers, e, hw, hdue⟩ := holding_of_rest hd hclosed hcalling hrunning
        have hintime := hheld e (by rw [hw]; exact List.mem_singleton_self e)
        obtain ⟨w, hstep, hclock⟩ := S.exists_wait hw hdue hintime
        have hdeliver : s.bus.deed? (S.clock w) = some (.deliver tiers e) := by
          unfold deed?
          rw [hw]
          exact if_pos (Nat.le_of_eq hclock.symm)
        obtain ⟨es, hes⟩ := @hwork { s with host := w } _ rfl hdeliver
        refine ⟨.around w :: es, ?_⟩
        rw [List.foldl_cons, hstep]
        exact hes

end Stage

namespace History

variable (h : History L T W) (n : Nat)

/-! ### Drained buses -/

/-- All messages that were taken have been dispatched and counted. -/
structure Drained : Prop where
  dispatched : (h.dispatched n).map Prod.fst = h.accepted n
  delivered : (h.bus n).delivered = (h.accepted n).length
  queue : (h.bus n).queueLength = 0

/-- The clock can tell when each message is due that was taken. -/
def Timely : Prop := ∀ e ∈ h.accepted n, (e.due? h.settings.horizon).isSome

variable {h n}

/-- Timely messages are not lost. -/
theorem Timely.lost_eq_nil (htimely : h.Timely n) : h.lost n = [] := by
  refine List.eq_nil_iff_forall_not_mem.mpr fun e he => ?_
  have haccepted : e ∈ h.accepted n := by
    rw [h.accepted_eq]
    exact List.mem_append_right _ (List.mem_append_left _ he)
  exact Nat.not_le_of_lt (h.horizon_lt_of_mem_lost n he)
    ((e.isSome_due?_iff _).mp (htimely e haccepted))

/-- What has been dispatched was due at a time of the clock. -/
theorem due_le_of_mem_dispatched {p : Envelope L × Nat} (hp : p ∈ h.dispatched n) :
    p.1.due ≤ h.settings.horizon := by
  induction n with
  | zero => cases hp
  | succ n ih =>
    rcases List.mem_append.mp hp with hp | hp
    · exact ih hp
    · obtain ⟨e, he, rfl⟩ := List.mem_map.mp hp
      exact Nat.le_trans (due_of_delivery (Option.mem_toList.mp he)).1 (h.now_le_horizon n)

/-- At every moment, all messages have been dispatched and counted if and only if
no post action has panicked in a dispatch of the worker, the clock can tell
when each message is due, and none is pending. -/
theorem drained_iff : h.Drained n ↔ h.Calm n ∧ h.Timely n ∧ (h.bus n).pending = [] := by
  constructor
  · rintro ⟨hdispatched, hdelivered, _⟩
    obtain ⟨uncounted, hcount, hiff⟩ := h.delivered_add n
    have hlength : (h.accepted n).length = (h.dispatched n).length := by
      rw [← hdispatched, List.length_map]
    refine ⟨hiff.mp (by omega), fun e he => ?_, ?_⟩
    · rw [← hdispatched] at he
      obtain ⟨p, hp, rfl⟩ := List.mem_map.mp he
      exact (p.1.isSome_due?_iff _).mpr (due_le_of_mem_dispatched hp)
    · -- What is pending comes on top of what has been dispatched.
      have hall := h.accepted_eq n
      rw [← hdispatched, List.self_eq_append_right] at hall
      exact (List.append_eq_nil_iff.mp hall).2
  · rintro ⟨hcalm, htimely, hpending⟩
    have hdispatched : (h.dispatched n).map Prod.fst = h.accepted n := by
      rw [h.accepted_eq, htimely.lost_eq_nil, hpending, List.append_nil, List.append_nil]
    refine ⟨hdispatched, ?_, congrArg List.length (List.append_eq_nil_iff.mp hpending).2⟩
    rw [h.delivered_eq n hcalm, ← hdispatched, List.length_map]

/-! ### Calls of shutdown -/

variable (h n)

/-- The history that goes on in another way after the first `n` events. -/
def continued (more : List (Event L T W)) : History L T W :=
  { h with events := h.events.take n ++ more }

theorem after_continued (more : List (Event L T W)) :
    (h.continued n more).after (h.continued n more).events.length
      = more.foldl h.stage.step (h.after n) := by
  unfold after continued
  rw [List.take_length, List.foldl_append]

/-- A call of shutdown by event `i` has returned before event `m`: at once, if it
has found no worker to wait for, and else when the worker has ended. -/
structure ReturnedBy (i m : Nat) : Prop where
  lt : i < m
  call : h.events[i]? = some (.use .shutdown)
  ended : (h.bus i).shutdown.1 = true → (h.bus m).worker.isRunning = false

variable {h n} {i m j : Nat}

/-- A shutdown leaves the worker and the queue, and closes the bus. -/
theorem bus_of_shutdown (hcall : h.events[i]? = some (.use .shutdown)) :
    h.bus (i + 1) = (h.bus i).shutdown.2 := by
  unfold bus
  rw [after_of_event hcall]
  rfl

/-- A closed bus takes no message. -/
theorem accepted_of_closed (hnm : n ≤ m) (hclosed : (h.bus n).isOpen = false) :
    h.accepted m = h.accepted n := by
  induction m, hnm using Nat.le_induction with
  | base => rfl
  | succ m hnm ih =>
    obtain ⟨_, _, htakes⟩ := h.takes_succ m
    rw [accepted, htakes.refused (.inl (h.closed_mono hnm hclosed)), List.append_nil, ih]

theorem accepted_of_shutdown (hcall : h.events[i]? = some (.use .shutdown)) :
    h.accepted (i + 1) = h.accepted i := by
  have hsent : h.sent i = [] := by
    unfold sent
    rw [bus_of_shutdown hcall]
    exact List.drop_length
  rw [accepted, hsent, List.append_nil]

/-- The handle of a worker that was started is there until a call of shutdown
takes it, and does not come back. -/
theorem joinable (h : History L T W) (n : Nat) : (h.bus n).Joinable := by
  induction n with
  | zero => exact fun hw => absurd rfl hw
  | succ n ih =>
    exact h.kept_succ n ih (fun _ hgrows => hgrows.joinable ih) fun _ _ hworks => hworks.joinable ih

theorem taken_mono (hnm : n ≤ m) (hstarted : (h.bus n).worker ≠ .unstarted)
    (htaken : (h.bus n).hasHandle = false) : (h.bus m).hasHandle = false := by
  induction m, hnm using Nat.le_induction with
  | base => exact htaken
  | succ m hnm ih =>
    exact h.kept_succ m (motive := fun b => b.hasHandle = false) ih
      (fun _ hgrows => hgrows.taken (h.started_mono hnm hstarted) ih) fun _ _ hworks => hworks.taken ih

/-- The clock can tell when a message is due that the worker holds. -/
theorem held_due_le {e : Envelope L} (he : e ∈ (h.bus n).worker.held) :
    e.due ≤ h.settings.horizon := by
  refine h.worker_induction n (motive := fun w => ∀ e ∈ w.held, e.due ≤ h.settings.horizon)
    (fun e he => nomatch he) (fun e he => nomatch he) (fun i d _ hworks _ e he => ?_) e he
  exact h.settings_eq i ▸ hworks.due_le he

/-- A call of shutdown returns, if time goes on long enough. -/
theorem exists_returned (hstarted : (h.bus i).worker ≠ .unstarted)
    (hcall : h.events[i]? = some (.use .shutdown)) :
    ∃ more, (h.continued (i + 1) more).ReturnedBy i (h.continued (i + 1) more).events.length := by
  have hbus := bus_of_shutdown hcall
  obtain ⟨more, hended⟩ := h.stage.exists_ended (s := h.after (i + 1))
    (h.started_succ i hstarted) (congrArg Bus.isOpen hbus) (h.worker_ne_calling (i + 1))
    fun e he => by
      show e.due ≤ (h.bus (i + 1)).settings.horizon
      rw [h.settings_eq]
      exact held_due_le he
  have hlength : i < h.events.length := (List.getElem?_eq_some_iff.mp hcall).1
  refine ⟨more, ?_, ?_, fun _ => ?_⟩
  · show i < (h.events.take (i + 1) ++ more).length
    rw [List.length_append, List.length_take]
    omega
  · show (h.events.take (i + 1) ++ more)[i]? = _
    rw [List.getElem?_append_left (by rw [List.length_take]; omega),
      List.getElem?_take_of_lt (Nat.lt_succ_self i), hcall]
  · unfold bus
    rw [after_continued]
    exact hended.ended

/-- Nothing happens any more in a closed bus whose worker has ended. -/
theorem ended_succ (hended : (h.bus n).Ended) : (h.bus (n + 1)).Ended ∧
    (h.bus (n + 1)).delivered = (h.bus n).delivered ∧ (h.bus (n + 1)).queue = (h.bus n).queue := by
  obtain ⟨hstarted, hclosed, hend⟩ := hended
  cases h.change n with
  | used _ _ hgrows =>
    have hw := hgrows.worker_eq hstarted
    exact ⟨⟨hw ▸ hstarted, hgrows.closed hclosed, hw ▸ hend⟩, hgrows.delivered_eq,
      hgrows.queue_eq_of_closed hclosed⟩
  | passed _ hbus _ _ _ _ =>
    exact ⟨⟨hbus ▸ hstarted, hbus ▸ hclosed, hbus ▸ hend⟩, by rw [hbus], by rw [hbus]⟩
  | worked _ _ hworks _ =>
    rw [hworks.isRunning] at hend
    cases hend

theorem ended_mono (hended : (h.bus n).Ended) (hnj : n ≤ j) : (h.bus j).Ended ∧
    (h.bus j).delivered = (h.bus n).delivered ∧ (h.bus j).queue = (h.bus n).queue := by
  induction j, hnj using Nat.le_induction with
  | base => exact ⟨hended, rfl, rfl⟩
  | succ j _ ih =>
    obtain ⟨hended', hdelivered, hqueue⟩ := ended_succ ih.1
    exact ⟨hended', hdelivered.trans ih.2.1, hqueue.trans ih.2.2⟩

/-- A worker that has ended, and not by a panic, has left nothing. -/
theorem Ended.pending_eq_nil (hended : (h.bus n).Ended) (hcalm : h.Calm n)
    (htimely : h.Timely n) : (h.bus n).pending = [] := by
  have hfailed : (h.bus n).worker ≠ .failed := fun hfailed =>
    (h.failed_iff n).mp hfailed ⟨hcalm, htimely.lost_eq_nil⟩
  have hfinished : (h.bus n).worker = .finished := by
    obtain ⟨hstarted, _, hend⟩ := hended
    generalize (h.bus n).worker = w at hstarted hend hfailed
    cases w with
    | finished => rfl
    | unstarted => exact absurd rfl hstarted
    | failed => exact absurd rfl hfailed
    | spawned | waiting | holding | calling => cases hend
  unfold pending
  rw [hfinished, (h.queue_of_finished n hfinished).2]
  rfl

/-- A call of shutdown on a bus that was started returns. When it has, and it has
waited for the worker, all messages that the bus had taken before the call have
been dispatched and counted, if and only if no post action has panicked in a
dispatch of the worker and the clock can tell when each of them is due: nothing
else that listeners and post actions do keeps a message from its delivery. The
call waits unless the bus was shut down before, in which case it returns while
messages may be pending. From the call on, every message for later is refused,
and after the end of the worker neither count changes. -/
theorem shutdown_drains_iff (hstarted : (h.bus i).worker ≠ .unstarted)
    (hcall : h.events[i]? = some (.use .shutdown)) :
    (∃ more, (h.continued (i + 1) more).ReturnedBy i
      (h.continued (i + 1) more).events.length) ∧
    ((h.bus i).shutdown.1 = false → (h.bus i).isOpen = false ∧ h.ReturnedBy i (i + 1)) ∧
    ∀ m, h.ReturnedBy i m →
      h.accepted m = h.accepted i ∧
      (h.Drained m ↔ h.Calm m ∧ h.Timely m ∧
        ((h.bus i).shutdown.1 = true ∨ (h.bus m).pending = [])) ∧
      ∀ j, m ≤ j →
        ((h.bus i).shutdown.1 = true →
          (h.bus j).delivered = (h.bus m).delivered ∧
          (h.bus j).queueLength = (h.bus m).queueLength) ∧
        (h.bus j).isRunning = false ∧
        (∀ msg delay, (h.bus j).send msg delay (h.now j) = (false, h.bus j)) ∧
        ∀ p, (h.bus j).sendPack p (h.now j) = (0, h.bus j) := by
  have hbus := bus_of_shutdown hcall
  have hclosed : (h.bus (i + 1)).isOpen = false := by
    rw [hbus]
    rfl
  have htaken : (h.bus (i + 1)).hasHandle = false := by
    rw [hbus]
    rfl
  refine ⟨exists_returned hstarted hcall, fun hwaits => ⟨h.joinable i hstarted hwaits,
    Nat.lt_succ_self i, hcall, fun hwaits' => ?_⟩, fun m hreturned => ?_⟩
  · rw [hwaits] at hwaits'
    cases hwaits'
  have him : i + 1 ≤ m := hreturned.lt
  have hended : (h.bus i).shutdown.1 = true → (h.bus m).Ended := fun hwaits =>
    ⟨h.started_mono (Nat.le_of_lt hreturned.lt) hstarted, h.closed_mono him hclosed, hreturned.ended hwaits⟩
  refine ⟨(accepted_of_closed him hclosed).trans (accepted_of_shutdown hcall), ?drained,
    fun j hmj => ⟨fun hwaits => ?counts, ?running, fun msg delay => ?refused, fun p => ?packs⟩⟩
  case drained =>
    rw [drained_iff]
    refine and_congr_right fun hcalm => and_congr_right fun htimely => ⟨.inr, ?_⟩
    rintro (hwaits | hpending)
    · exact Ended.pending_eq_nil (hended hwaits) hcalm htimely
    · exact hpending
  case counts =>
    obtain ⟨_, hdelivered, hqueue⟩ := ended_mono (hended hwaits) hmj
    exact ⟨hdelivered, congrArg List.length hqueue⟩
  case running =>
    unfold isRunning
    rw [taken_mono (Nat.le_trans him hmj) (h.started_succ i hstarted) htaken]
    rfl
  case refused =>
    unfold send
    rw [accepts_eq_false (.inl (h.closed_mono (Nat.le_trans him hmj) hclosed))]
    rfl
  case packs =>
    unfold sendPack
    rw [accepts_eq_false (.inl (h.closed_mono (Nat.le_trans him hmj) hclosed))]
    rfl

/-- Two messages, the first of them with a post action and a delay, on a bus that
is then shut down. The listener panics. -/
def twoMessages (post : Reply) (delay : Nat) (more : List (Event Reply Reply Nat)) :
    History Reply Reply Nat where
  stage := .plain
  settings := {}
  host := 0
  events :=
    [.use (.register "a" (.panic "no")),
     .use (.start true),
     .use (.send { id := 1, context := { postActions := [post] } } (some delay)),
     .use (.send { id := 2 } (some 0)),
     .use .shutdown] ++ more

/-- The worker runs until it has ended. -/
def runs (post : Reply) : History Reply Reply Nat :=
  twoMessages post 0 (List.replicate 6 .work)

/-- A listener that panics and a post action that fails do no harm. -/
theorem shutdown_drains_failures :
    (runs (.failure .noRuntime)).ReturnedBy 4 11 ∧ (runs (.failure .noRuntime)).Calm 11 ∧
    (runs (.failure .noRuntime)).Timely 11 ∧ (runs (.failure .noRuntime)).Drained 11 ∧
    ((runs (.failure .noRuntime)).bus 11).delivered = 2 := by
  have hstarted : ((runs (.failure .noRuntime)).bus 4).worker ≠ .unstarted :=
    fun heq => nomatch heq
  have hreturned : (runs (.failure .noRuntime)).ReturnedBy 4 11 := ⟨by decide, rfl, fun _ => rfl⟩
  have hcalm : (runs (.failure .noRuntime)).Calm 11 :=
    ((runs (.failure .noRuntime)).calm_of_worker 11 fun heq => nomatch heq).1
  have htimely : (runs (.failure .noRuntime)).Timely 11 := by
    unfold Timely
    decide +kernel
  obtain ⟨_, _, hafter⟩ := shutdown_drains_iff hstarted rfl
  obtain ⟨_, hdrained, _⟩ := hafter 11 hreturned
  exact ⟨hreturned, hcalm, htimely, hdrained.mpr ⟨hcalm, htimely, .inl rfl⟩, rfl⟩

/-- But the bus loses the second message if the post action of the first one
panics. -/
theorem not_always_drained :
    ¬ ∀ (h : History Reply Reply Nat) i m, (h.bus i).worker ≠ .unstarted →
      h.ReturnedBy i m → h.Drained m := by
  intro hall
  have hdrained := hall
    (runs (.panic "no")) 4 11
    (fun heq => nomatch heq) ⟨by decide, rfl, fun _ => rfl⟩
  exact absurd hdrained.queue (by decide)

/-- It loses it as well if the first one is never due. -/
example :
    ¬ (twoMessages (.code 0) 9223372036854775808000 (List.replicate 6 .work)).Drained 11 :=
  fun hdrained => absurd hdrained.queue (by decide +kernel)

/-- A second call of shutdown does not wait for the first one. -/
example :
    (twoMessages (.code 0) 50 [.use .shutdown]).ReturnedBy 5 6 ∧
    ¬ (twoMessages (.code 0) 50 [.use .shutdown]).Drained 6 :=
  ⟨⟨by decide, rfl, fun hwaits => nomatch hwaits⟩, fun hdrained => absurd hdrained.queue (by decide)⟩

end History

end Backplane.Bus
