import Backplane.Node.Build
import Backplane.Proofs.Bus.History
import Backplane.Proofs.Node.Stage

/-!
# `Backplane.Proofs.Node.Schedule`: the tasks of a node and the histories of its bus

A history of a bus says when the worker is let run and when time passes. A
node has tasks and timers for this: tasks run that are ready, and the clock
moves to the next timer when none is. This module shows that such a node
makes histories. What carries it is `Timed`: the worker is ready if it has
something to do, and has a timer for the time that it waits for otherwise.
The main statements:

* `Attends.keeps`, `keeps_runTask`: requests and tasks keep a node timed, and
  do no more to the bus than events of a history.
* `keeps_moveTo`: so does the clock, when it moves to the next timer of a node
  in which no task is ready.
* `exists_history`: whatever is asked of a node, its bus has a history with
  the node as its stage.
-/

set_option autoImplicit false

namespace Backplane

/-! ### Deadlines of lock calls -/

namespace Lock

/-- A call that queues up is not late. -/
theorem Block.isLate_of_proceed (b : Block) (name : CallId) (c : Call) (now : Nat) (ids : List Int)
    {c' : Call} (h : (b.proceed name c now ids).1 = .waiting c') : c'.isLate now = false := by
  induction ids generalizing b c with
  | nil => cases h
  | cons id rest ih =>
    unfold proceed at h
    simp only at h
    split at h
    · exact ih _ _ h
    · split at h
      · exact ih _ _ h
      · split at h
        · cases h
        · rename_i hlate
          cases h
          exact Bool.eq_false_iff.mpr hlate

theorem Block.isLate_of_resume (b : Block) (name : CallId) (c : Call) (now : Nat) {c' : Call}
    (h : (b.resume name c now).1 = .waiting c') : c'.isLate now = false := by
  unfold resume at h
  split at h
  · cases h
  · simp only at h
    split at h
    · unfold takeHanded at h
      simp only at h
      split at h
      · exact isLate_of_proceed _ _ _ _ _ h
      · exact isLate_of_proceed _ _ _ _ _ h
    · split at h
      · cases h
      · rename_i hlate
        cases h
        exact Bool.eq_false_iff.mpr hlate

theorem Service.isLate_of_begin (s : Service) (name : CallId) (r : Request) (now : Nat) {c : Call}
    (h : (s.begin name r now).1 = .ok (.waiting c)) : c.isLate now = false := by
  unfold begin at h
  split at h
  · cases h
  · exact Block.isLate_of_proceed _ _ _ _ _ (Except.ok.inj h)

theorem Service.isLate_of_resume (s : Service) (name : CallId) (now : Nat) {c : Call}
    (h : (s.resume name now).1 = .waiting c) : c.isLate now = false := by
  unfold resume at h
  split at h
  · cases h
  · split at h
    · cases h
    · exact Block.isLate_of_resume _ _ _ _ h

/-- The deadline of a call that is not late is to come. -/
theorem Call.lt_of_isLate {c : Call} {now d : Nat} (h : c.isLate now = false)
    (hd : c.deadline = some d) : now < d := by
  unfold isLate at h
  rw [hd] at h
  simpa using h

end Lock

namespace Node

open Bus (Reaches)

/-! ### What events lead to -/

/-- Some events of a history lead from one state of a node to another. -/
def Leads (n n' : Node) : Prop :=
  ∃ es : List (Bus.Event Listener Listener Services), n' = es.foldl stage.step n

variable {n n₁ n' : Node}

theorem Leads.refl (n : Node) : Leads n n := ⟨[], rfl⟩

theorem Leads.trans (h : Leads n n₁) (h' : Leads n₁ n') : Leads n n' := by
  obtain ⟨es, rfl⟩ := h
  obtain ⟨more, rfl⟩ := h'
  exact ⟨es ++ more, List.foldl_append.symm⟩

/-- Operations of the bus, and a change around it. -/
theorem leads_of_reaches (h : Reaches clock n n') : Leads n n' := by
  obtain ⟨ops, hbus⟩ := h.follows
  have huse : ∀ (ops : List (Bus.Operation Listener Listener)) (n : Node),
      (ops.map Bus.Event.use).foldl stage.step n
        = { n with bus := ops.foldl (fun b o => b.apply (clock n.host) o) n.bus } := by
    intro ops
    induction ops with
    | nil => exact fun n => rfl
    | cons o rest ih => exact fun n => ih { n with bus := n.bus.apply (clock n.host) o }
  refine ⟨ops.map Bus.Event.use ++ [.around n'.host], ?_⟩
  rw [List.foldl_append, huse, ← hbus]
  have hallows : stage.allows { n with bus := n'.bus } n'.host = true :=
    (Bool.or_eq_true _ _).mpr (.inl (beq_iff_eq.mpr h.clock_eq))
  exact (if_pos hallows).symm

theorem Leads.now_le (h : Leads n n') (hwithin : n.now ≤ n.bus.settings.horizon) :
    n'.now ≤ n'.bus.settings.horizon := by
  obtain ⟨es, rfl⟩ := h
  exact stage.clock_foldl_le es hwithin

/-! ### What is kept -/

/-- The clock can tell the time, all timers are to come, and the worker will run
when it has something to do: it is ready if it has, and has a timer otherwise. -/
structure Timed (n : Node) : Prop where
  within : n.now ≤ n.bus.settings.horizon
  ahead : ∀ e ∈ n.host.timeline.timers, n.now < e.2
  awake : n.bus.hasWork n.now = true → .worker ∈ n.host.timeline.ready
  alarm : n.bus.hasWork n.now = false → ∀ d, n.bus.worker.deadline? = some d →
    (.worker, d) ∈ n.host.timeline.timers

/-- From `n` to `n'` the node stays timed, and what happens are events of a
history. -/
def Keeps (n n' : Node) : Prop := n.Timed → n'.Timed ∧ Leads n n'

theorem Keeps.refl (n : Node) : Keeps n n := fun h => ⟨h, .refl n⟩

theorem Keeps.trans (h : Keeps n n₁) (h' : Keeps n₁ n') : Keeps n n' := fun htimed => by
  obtain ⟨htimed₁, hleads⟩ := h htimed
  obtain ⟨htimed', hleads'⟩ := h' htimed₁
  exact ⟨htimed', hleads.trans hleads'⟩

/-- Besides, no time passes. -/
def KeepsNow (n n' : Node) : Prop := n.Timed → n'.Timed ∧ Leads n n' ∧ n'.now = n.now

theorem KeepsNow.refl (n : Node) : KeepsNow n n := fun h => ⟨h, .refl n, rfl⟩

theorem KeepsNow.trans (h : KeepsNow n n₁) (h' : KeepsNow n₁ n') : KeepsNow n n' :=
  fun htimed => by
    obtain ⟨htimed₁, hleads, hnow⟩ := h htimed
    obtain ⟨htimed', hleads', hnow'⟩ := h' htimed₁
    exact ⟨htimed', hleads.trans hleads', hnow'.trans hnow⟩

theorem KeepsNow.keeps (h : KeepsNow n n') : Keeps n n' := fun htimed => by
  obtain ⟨htimed', hleads, _⟩ := h htimed
  exact ⟨htimed', hleads⟩

/-- More messages are no less work, and only a worker that waits for messages
gets work by them. -/
theorem hasWork_of_attends (h : Attends n n') :
    (n.bus.hasWork n.now = true → n'.bus.hasWork n'.now = true) ∧
    (n'.bus.hasWork n'.now = true →
      n.bus.hasWork n.now = true ∨ .worker ∈ n'.host.timeline.ready) := by
  obtain ⟨sent, hqueue, _⟩ := h.follows.grows.queue
  have hwakes := h.wakes
  unfold Bus.hasWork
  rw [h.worker_eq, h.isOpen_eq, h.now_eq]
  cases hw : n.bus.worker with
  -- The queue matters to no other worker.
  | waiting tiers deadline =>
    rw [hw] at hwakes
    refine ⟨fun hwork => ?_, fun hwork => ?_⟩
    · rw [hqueue]
      cases hq : n.bus.queue with
      | nil =>
        rw [hq] at hwork
        simp only [Bool.or_eq_true] at hwork ⊢
        exact hwork.imp (fun hopen => .inr (hopen.resolve_left (by simp))) id
      | cons e rest => rfl
    · rcases hwakes rfl with heq | hready
      · rw [heq] at hwork
        exact .inl hwork
      · exact .inr hready
  | _ => exact ⟨id, .inl⟩

/-- Whoever attends to a node keeps it timed. -/
theorem Attends.keeps (h : Attends n n') : KeepsNow n n' := by
  intro htimed
  have hleads := leads_of_reaches h.reaches
  refine ⟨?_, hleads, h.now_eq⟩
  obtain ⟨tasks, htimeline⟩ := h.timeline
  obtain ⟨hmore, hready⟩ := hasWork_of_attends h
  -- Who was ready stays ready, and all timers stay.
  have htimers : n'.host.timeline.timers = n.host.timeline.timers := by
    rw [htimeline, Timeline.timers_wakeAll]
  refine ⟨hleads.now_le htimed.within, ?_, fun hwork => ?_, fun hrest => ?_⟩
  · rw [htimers, h.now_eq]
    exact htimed.ahead
  · rcases hready hwork with hbefore | hready
    · rw [htimeline]
      exact Timeline.mem_ready_wakeAll.mpr (.inr (htimed.awake hbefore))
    · exact hready
  · rw [htimers, h.worker_eq]
    refine htimed.alarm (Bool.eq_false_iff.mpr fun hbefore => ?_)
    rw [hmore hbefore] at hrest
    cases hrest

/-! ### Tasks -/

theorem now_putTimer (n : Node) (t : Task) (time : Option Nat) :
    (n.putTimer t time).now = n.now := by
  cases time <;> rfl

theorem leads_putTimer (n : Node) (t : Task) (time : Option Nat) : Leads n (n.putTimer t time) :=
  leads_of_reaches ⟨now_putTimer n t time, by cases time <;> exact .refl _ _⟩

theorem mem_timers_putTimer {t : Task} {time : Option Nat} {e : Task × Nat} :
    e ∈ (n.putTimer t time).host.timeline.timers ↔
      e ∈ n.host.timeline.timers ∧ e.1 ≠ t ∨ e.1 = t ∧ time = some e.2 := by
  obtain ⟨task, d⟩ := e
  cases time with
  | none => simp [putTimer, Timeline.cancel]
  | some time =>
    simp only [putTimer, Timeline.setTimer, Timeline.cancel, List.mem_append, List.mem_filter,
      List.mem_singleton, Prod.mk.injEq, Option.some.injEq, decide_eq_true_eq, @eq_comm _ time]

/-- A timer that is set to a time to come leaves no timer behind the clock. -/
theorem ahead_putTimer {t : Task} {time : Option Nat}
    (hahead : ∀ e ∈ n.host.timeline.timers, n.now < e.2) (htime : ∀ d, time = some d → n.now < d) :
    ∀ e ∈ (n.putTimer t time).host.timeline.timers, (n.putTimer t time).now < e.2 := by
  intro e he
  rw [now_putTimer]
  rcases mem_timers_putTimer.mp he with ⟨he, _⟩ | ⟨_, he⟩
  · exact hahead e he
  · exact htime e.2 he

/-- The timer of a lock call is no concern of the worker. -/
theorem keeps_putTimer (n : Node) (name : Lock.CallId) {time : Option Nat}
    (htime : ∀ d, time = some d → n.now < d) : KeepsNow n (n.putTimer (.lockCall name) time) := by
  intro htimed
  have hnow := now_putTimer n (.lockCall name) time
  have hleads := leads_putTimer n (.lockCall name) time
  refine ⟨⟨hleads.now_le htimed.within, ahead_putTimer htimed.ahead htime, fun hwork => ?_,
    fun hrest d hd => ?_⟩, hleads, hnow⟩
  · rw [hnow] at hwork
    rw [show (n.putTimer (.lockCall name) time).host.timeline.ready = n.host.timeline.ready by
      cases time <;> rfl]
    exact htimed.awake hwork
  · rw [hnow] at hrest
    exact mem_timers_putTimer.mpr (.inl ⟨htimed.alarm hrest d hd, fun heq => nomatch heq⟩)

/-- A worker that has something to do is made ready. -/
theorem timed_wake (hwithin : n.now ≤ n.bus.settings.horizon)
    (hahead : ∀ e ∈ n.host.timeline.timers, n.now < e.2)
    (hwork : n.bus.hasWork n.now = true) : (wake n .worker).Timed := by
  have hwake : Attends n (wake n .worker) := @attends_of_wakeAll n _ [.worker] rfl rfl
  refine ⟨hwake.now_eq ▸ hwithin, ?_, fun _ => (Timeline.mem_ready_wake _ _ _).mpr (.inl rfl), fun hrest => ?_⟩
  · show ∀ e ∈ (n.host.timeline.wake .worker).timers, _
    rw [hwake.now_eq, Timeline.timers_wake]
    exact hahead
  · rw [hwake.now_eq] at hrest
    exact absurd hwork (Bool.eq_false_iff.mp hrest)

/-- A worker that has nothing to do has a timer set, if it waits for a time. -/
theorem timed_putTimer (hwithin : n.now ≤ n.bus.settings.horizon)
    (hahead : ∀ e ∈ n.host.timeline.timers, n.now < e.2)
    (hrest : n.bus.hasWork n.now = false) :
    (n.putTimer .worker n.bus.worker.deadline?).Timed := by
  have hwork : n.bus.hasWork n.now ≠ true := Bool.eq_false_iff.mp hrest
  have hnow := now_putTimer n .worker n.bus.worker.deadline?
  -- Otherwise its time would have come.
  have htime : ∀ d, n.bus.worker.deadline? = some d → n.now < d := fun d hd =>
    Nat.lt_of_not_le fun hle => hwork ((Bus.hasWork_iff hrest _).mpr ⟨d, hd, hle⟩)
  refine ⟨(leads_putTimer n .worker _).now_le hwithin, ahead_putTimer hahead htime, fun h => ?_,
    fun _ d hd => ?_⟩
  · rw [hnow] at h
    exact absurd h hwork
  · exact mem_timers_putTimer.mpr (.inr ⟨rfl, hd⟩)

theorem keeps_notePlace (n : Node) (name : Lock.CallId) {progress : Except Lock.Error Lock.Progress}
    (hlate : ∀ c, progress = .ok (.waiting c) → c.isLate n.now = false) :
    KeepsNow n (n.notePlace name progress) := by
  have hfinish : ∀ (n : Node) result, KeepsNow n (n.finish name result) := fun n result =>
    Attends.keeps (attends_of_eq rfl rfl)
  have hover : ∀ result, KeepsNow n ((n.putTimer (.lockCall name) none).finish name result) :=
    fun result => (keeps_putTimer n name (fun _ h => by cases h)).trans (hfinish _ result)
  unfold notePlace
  split
  · exact hover _
  · exact hover _
  · rename_i c
    exact keeps_putTimer n name fun d hd => Lock.Call.lt_of_isLate (hlate c rfl) hd

theorem keeps_runCall (n : Node) (name : Lock.CallId) : KeepsNow n (n.runCall name) := by
  have hput : ∀ (n : Node) locks woken progress,
      (∀ c, progress = .ok (.waiting c) → c.isLate n.now = false) →
      KeepsNow n ((n.putLocks locks woken).notePlace name progress) := by
    intro n locks woken progress hlate
    have hattends := attends_putLocks n locks woken
    refine hattends.keeps.trans (keeps_notePlace _ name ?_)
    rwa [hattends.now_eq]
  unfold runCall
  split
  · rename_i r _
    have hlate := @Lock.Service.isLate_of_begin n.host.locks name r n.now
    generalize n.host.locks.begin name r n.now = begun at hlate
    obtain ⟨progress, locks, woken⟩ := begun
    let taken : Node := { n with host := { n.host with
      requests := n.host.requests.filter fun q => q.1 ≠ name } }
    have htaken : KeepsNow n taken := Attends.keeps (attends_of_eq rfl rfl)
    exact htaken.trans (hput taken locks woken progress fun c hc => hlate hc)
  · have hlate := @Lock.Service.isLate_of_resume n.host.locks name n.now
    generalize n.host.locks.resume name n.now = resumed at hlate
    obtain ⟨progress, locks, woken⟩ := resumed
    exact hput n locks woken (.ok progress) fun c hc => hlate (Except.ok.inj hc)

/-- A deed of the worker at most wakes tasks. -/
theorem timeline_perform (n : Node) (now : Nat) (d : Bus.Deed Listener) :
    ∃ tasks, (Bus.perform (call maxDepth) now n d).host.timeline
      = n.host.timeline.wakeAll tasks := by
  cases d with
  | deliver tiers e =>
    have hattends := (Bus.rel_dispatch (attends_call maxDepth) e.message
      (n.setWorker .calling)).timeline
    show ∃ tasks, (Bus.deliver (call maxDepth) tiers e now n).host.timeline = _
    unfold Bus.deliver
    split
    · rename_i heq
      rwa [heq] at hattends
    · rename_i heq
      rwa [heq] at hattends
  | poll tiers =>
    exact (Bus.rel_foldl_dispatch (attends_call maxDepth) (Bus.Tier.fired tiers now)
      (n.setWorker .calling)).timeline
  | begin | take | lose | finish => exact ⟨[], rfl⟩

/-- So does its whole run, which consists of events. -/
theorem leads_run (n : Node) (fuel : Nat) :
    Leads n (Bus.run (call maxDepth) n.now fuel n).2 ∧
      ∃ tasks, (Bus.run (call maxDepth) n.now fuel n).2.host.timeline
        = n.host.timeline.wakeAll tasks := by
  obtain ⟨moves, hmoves⟩ := Bus.run_eq_iterate (call maxDepth) n.now fuel n
  rw [hmoves]
  clear hmoves
  induction moves with
  | zero => exact ⟨.refl n, [], rfl⟩
  | succ moves ih =>
    rw [Function.iterate_succ_apply']
    generalize (Bus.moveOnce (call maxDepth) n.now)^[moves] n = n₁ at ih
    obtain ⟨hleads, tasks, htimeline⟩ := ih
    have hnow : n.now = clock n₁.host := by
      refine Eq.trans ?_ (congrArg Timeline.now htimeline).symm
      exact (Timeline.now_wakeAll _ _).symm
    refine ⟨hleads.trans ⟨[.work], ?_⟩, ?_⟩
    · rw [hnow]
      rfl
    · rw [Bus.moveOnce, Bus.move?_eq]
      cases Bus.deed? n₁.bus n.now with
      | none => exact ⟨tasks, htimeline⟩
      | some d =>
        obtain ⟨more, hmore⟩ := timeline_perform n₁ n.now d
        refine ⟨tasks ++ more, ?_⟩
        rw [Timeline.wakeAll_append, ← htimeline]
        exact hmore

/-- The worker runs. It may have been ready for this, and is not so any more:
that it is ready if it has something to do is not needed. -/
theorem timed_runWorker (hwithin : n.now ≤ n.bus.settings.horizon)
    (hahead : ∀ e ∈ n.host.timeline.timers, n.now < e.2)
    (halarm : n.bus.hasWork n.now = false → ∀ d, n.bus.worker.deadline? = some d →
      (.worker, d) ∈ n.host.timeline.timers) :
    n.runWorker.Timed ∧ Leads n n.runWorker ∧ n.runWorker.now = n.now := by
  obtain ⟨hleads, tasks, htimeline⟩ := leads_run n maxMoves
  have hstays : (Bus.run (call maxDepth) n.now maxMoves n).1 = false →
      (Bus.run (call maxDepth) n.now maxMoves n).2 = n := by
    show (Bus.run _ _ (999999 + 1) _).1 = false → (Bus.run _ _ (999999 + 1) _).2 = n
    unfold Bus.run
    split
    · exact fun _ => rfl
    · exact fun h => nomatch h
  unfold runWorker
  generalize Bus.run (call maxDepth) n.now maxMoves n = ran at *
  obtain ⟨moved, n₁⟩ := ran
  have hnow : now n₁ = n.now := by
    exact (congrArg Timeline.now htimeline).trans (Timeline.now_wakeAll _ _)
  have htimers : n₁.host.timeline.timers = n.host.timeline.timers := by
    exact (congrArg Timeline.timers htimeline).trans (Timeline.timers_wakeAll _ _)
  have hahead₁ : ∀ e ∈ n₁.host.timeline.timers, now n₁ < e.2 := by
    rw [htimers, hnow]
    exact hahead
  have hwithin₁ := hleads.now_le hwithin
  simp only at hleads hstays ⊢
  split
  · -- It was interrupted, and goes on later.
    rename_i hwork
    have hwake : Attends n₁ (wake n₁ .worker) := @attends_of_wakeAll n₁ _ [.worker] rfl rfl
    exact ⟨timed_wake hwithin₁ hahead₁ hwork, hleads.trans (leads_of_reaches hwake.reaches),
      hwake.now_eq.trans hnow⟩
  · rename_i hrest
    have hrest : n₁.bus.hasWork (now n₁) = false := Bool.eq_false_iff.mpr hrest
    cases moved with
    | false =>
      rw [hstays rfl] at hrest ⊢
      exact ⟨⟨hwithin, hahead, fun hwork => absurd hwork (Bool.eq_false_iff.mp hrest), halarm⟩,
        .refl n, rfl⟩
    | true =>
      exact ⟨timed_putTimer hwithin₁ hahead₁ hrest, hleads.trans (leads_putTimer n₁ .worker _),
        (now_putTimer n₁ .worker _).trans hnow⟩

/-- The first task that is ready runs. -/
theorem keeps_runTask {t : Task} {rest : List Task} (hready : n.host.timeline.ready = t :: rest) :
    KeepsNow n (runTask
      { n with host := { n.host with timeline := { n.host.timeline with ready := rest } } } t) := by
  let popped : Node :=
    { n with host := { n.host with timeline := { n.host.timeline with ready := rest } } }
  have hpopped : Leads n popped := leads_of_reaches ⟨rfl, .refl _ _⟩
  intro htimed
  cases t with
  | worker =>
    -- The worker was taken out of the line, so the node is not timed meanwhile.
    obtain ⟨htimed', hleads, hnow⟩ := @timed_runWorker popped htimed.within htimed.ahead htimed.alarm
    exact ⟨htimed', hpopped.trans hleads, hnow⟩
  | lockCall name =>
    have htimed' : popped.Timed := by
      refine ⟨htimed.within, htimed.ahead, fun hwork => ?_, htimed.alarm⟩
      have hmem := htimed.awake hwork
      rw [hready] at hmem
      exact (List.mem_cons.mp hmem).resolve_left fun heq => nomatch heq
    obtain ⟨htimed₁, hleads, hnow⟩ := keeps_runCall popped name htimed'
    exact ⟨htimed₁, hpopped.trans hleads, hnow⟩

theorem keeps_settleWithin (fuel : Nat) (n : Node) : KeepsNow n (settleWithin fuel n) := by
  induction fuel generalizing n with
  | zero => exact .refl n
  | succ fuel ih =>
    rw [settleWithin]
    unfold Timeline.next?
    cases hready : n.host.timeline.ready with
    | nil => exact .refl n
    | cons t rest => exact (keeps_runTask hready).trans (ih _)

theorem keeps_settle (n : Node) : KeepsNow n n.settle := keeps_settleWithin maxMoves n

/-! ### Time -/

/-- The clock moves, if no task is ready, and not beyond a timer. -/
theorem keeps_moveTo {time : Nat} (hrest : n.host.timeline.ready = []) (htime : n.now ≤ time)
    (hnext : ∀ e ∈ n.host.timeline.timers, time ≤ e.2) : Keeps n (n.moveTo time) := by
  intro htimed
  have hwork : n.bus.hasWork n.now = false := by
    refine Bool.eq_false_iff.mpr fun hwork => ?_
    have hmem := htimed.awake hwork
    rw [hrest] at hmem
    cases hmem
  have halarm := htimed.alarm hwork
  -- The time to which it moves is one that it can tell.
  have hle : n.now ≤ min time n.bus.settings.horizon := Nat.le_min.mpr ⟨htime, htimed.within⟩
  have hwithin : min time n.bus.settings.horizon ≤ n.bus.settings.horizon := Nat.min_le_right _ _
  have hbefore : ∀ e ∈ n.host.timeline.timers, min time n.bus.settings.horizon ≤ e.2 :=
    fun e he => Nat.le_trans (Nat.min_le_left _ _) (hnext e he)
  unfold moveTo
  generalize min time n.bus.settings.horizon = t at hle hwithin hbefore
  have hnow : (n.host.timeline.moveTo t).now = t := Timeline.now_wakeAll _ _
  have htimers : (n.host.timeline.moveTo t).timers
      = n.host.timeline.timers.filter fun e => ¬ e.2 ≤ t := Timeline.timers_wakeAll _ _
  let n' : Node := { n with host := { n.host with timeline := n.host.timeline.moveTo t } }
  have hnow' : n'.now = t := hnow
  show n'.Timed ∧ Leads n n'
  refine ⟨⟨?_, fun e he => ?_, fun hwork' => ?_, fun hrest' d hd => ?_⟩, [.around n'.host], ?_⟩
  · rw [hnow']
    exact hwithin
  · change e ∈ (n.host.timeline.moveTo t).timers at he
    rw [htimers] at he
    rw [hnow']
    simpa using (List.mem_filter.mp he).2
  · -- The timer of the worker is over.
    rw [hnow'] at hwork'
    obtain ⟨d, hd, hle⟩ := (Bus.hasWork_iff hwork t).mp hwork'
    refine Timeline.mem_ready_wakeAll.mpr (.inl (List.mem_map.mpr ⟨(.worker, d), ?_, rfl⟩))
    exact List.mem_filter.mpr ⟨halarm d hd, decide_eq_true hle⟩
  · rw [hnow'] at hrest'
    show (_, d) ∈ (n.host.timeline.moveTo t).timers
    rw [htimers]
    refine List.mem_filter.mpr ⟨halarm d hd, decide_eq_true fun hle => ?_⟩
    exact Bool.eq_false_iff.mp hrest' ((Bus.hasWork_iff hwork t).mpr ⟨d, hd, hle⟩)
  · have hallows : stage.allows n n'.host = true := by
      have hdeed : Bus.deed? n.bus n.now = none := by
        rwa [Bus.hasWork_eq, Option.isSome_eq_false_iff, Option.isNone_iff_eq_none] at hwork
      have hwait : n.bus.worker.deadline?.all (fun d => t ≤ d) = true := by
        cases hd : n.bus.worker.deadline? with
        | none => rfl
        | some d => exact decide_eq_true (hbefore _ (halarm d hd))
      show (n'.now == n.now || (n.now < n'.now && n'.now ≤ n.bus.settings.horizon &&
        (Bus.deed? n.bus n.now).isNone && n.bus.worker.deadline?.all fun d => n'.now ≤ d)) = true
      rw [hnow', hdeed, hwait]
      rcases Nat.eq_or_lt_of_le hle with heq | hlt
      · simp [heq]
      · simp [hlt, hwithin]
    exact (if_pos hallows).symm

theorem nextTime?_le {next : Nat} (hnext : n.host.timeline.nextTime? = some next) :
    (∃ e ∈ n.host.timeline.timers, e.2 = next) ∧ ∀ e ∈ n.host.timeline.timers, next ≤ e.2 := by
  obtain ⟨hmem, hle⟩ := List.min?_eq_some_iff.mp hnext
  obtain ⟨e, he, heq⟩ := List.mem_map.mp hmem
  exact ⟨⟨e, he, heq⟩, fun e he => hle _ (List.mem_map_of_mem he)⟩

/-- The clock moves to the next timer. -/
theorem keeps_moveTo_next (hrest : n.host.timeline.ready = []) {next : Nat}
    (hnext : n.host.timeline.nextTime? = some next) : Keeps n (n.moveTo next) := by
  obtain ⟨⟨e, he, rfl⟩, hle⟩ := nextTime?_le hnext
  exact fun htimed => keeps_moveTo hrest (Nat.le_of_lt (htimed.ahead e he)) hle htimed

theorem keeps_advanceWithin (fuel : Nat) {time : Nat} (htime : n.now ≤ time) :
    Keeps n (advanceWithin fuel time n) := by
  induction fuel generalizing n with
  | zero => exact .refl n
  | succ fuel ih =>
    intro htimed
    obtain ⟨htimed₁, hleads, hnow⟩ := keeps_settle n htimed
    have htime₁ : n.settle.now ≤ time := Nat.le_trans (Nat.le_of_eq hnow) htime
    suffices h : Keeps n.settle (advanceWithin (fuel + 1) time n) from
      (h htimed₁).imp_right hleads.trans
    rw [advanceWithin]
    split
    · exact .refl _
    · rename_i hready
      have hrest : n.settle.host.timeline.ready = [] := by simpa using hready
      split
      · rename_i next hnext
        split
        · rename_i hle
          have hnow' : (n.settle.moveTo next).now ≤ next :=
            Nat.le_trans (Nat.le_of_eq (Timeline.now_wakeAll _ _)) (Nat.min_le_left _ _)
          exact (keeps_moveTo_next hrest hnext).trans (ih (Nat.le_trans hnow' hle))
        · rename_i hlt
          have hahead : ∀ e ∈ n.settle.host.timeline.timers, time ≤ e.2 := fun e he =>
            Nat.le_trans (Nat.le_of_not_le hlt) ((nextTime?_le hnext).2 e he)
          exact (keeps_moveTo hrest htime₁ hahead).trans (keeps_settle _).keeps
      · rename_i hnone
        have htimers : n.settle.host.timeline.timers = [] := by
          simpa [Timeline.nextTime?] using hnone
        refine (keeps_moveTo hrest htime₁ fun e he => ?_).trans (keeps_settle _).keeps
        rw [htimers] at he
        cases he

theorem keeps_drainWithin (fuel : Nat) (n : Node) : Keeps n (drainWithin fuel n) := by
  induction fuel generalizing n with
  | zero => exact .refl n
  | succ fuel ih =>
    refine (keeps_settle n).keeps.trans ?_
    rw [drainWithin]
    split
    · rename_i hcontinues
      have hrest : n.settle.host.timeline.ready = [] := by
        simpa using (Bool.and_eq_true_iff.mp hcontinues).2
      split
      · rename_i next hnext
        exact (keeps_moveTo_next hrest hnext).trans (ih _)
      · exact .refl _
    · exact .refl _

/-! ### The worker is started, and its queue closed -/

theorem keeps_start (n : Node) (hasRuntime : Bool) : KeepsNow n (n.start hasRuntime).2 := by
  have hfollows : Bus.Follows n.now n.bus ((n.bus.start hasRuntime).toOption.getD n.bus) :=
    Bus.follows_apply n.bus n.now (.start hasRuntime)
  unfold start
  cases hstart : n.bus.start hasRuntime with
  | error e => exact .refl n
  | ok bus =>
    rw [hstart] at hfollows
    have hspawned : bus.worker = .spawned := by
      unfold Bus.start at hstart
      split at hstart
      · cases hstart
      · split at hstart
        · exact Except.ok.inj hstart ▸ rfl
        · cases hstart
    have hwork : bus.hasWork n.now = true := by
      unfold Bus.hasWork
      rw [hspawned]
    have hnow : (wake { n with bus } .worker).now = n.now := Timeline.now_wake _ _
    have hsettings : bus.settings = n.bus.settings := hfollows.grows.settings_eq
    exact fun htimed => ⟨@timed_wake { n with bus } (hsettings ▸ htimed.within) htimed.ahead hwork,
      leads_of_reaches ⟨hnow, hfollows⟩, hnow⟩

theorem keeps_close (n : Node) : KeepsNow n (wakeWorker { n with bus := n.bus.shutdown.2 }) := by
  have hfollows : Bus.Follows n.now n.bus n.bus.shutdown.2 :=
    Bus.follows_apply n.bus n.now .shutdown
  have hwork := n.bus.hasWork_shutdown n.now
  intro htimed
  unfold wakeWorker
  split
  · rename_i hwaiting
    rw [show n.bus.worker.isWaiting = true from hwaiting, Bool.true_or] at hwork
    have hnow : (wake { n with bus := n.bus.shutdown.2 } .worker).now = n.now :=
      Timeline.now_wake _ _
    exact ⟨@timed_wake { n with bus := n.bus.shutdown.2 } htimed.within htimed.ahead hwork,
      leads_of_reaches ⟨hnow, hfollows⟩, hnow⟩
  · rename_i hwaiting
    rw [Bool.eq_false_iff.mpr (show n.bus.worker.isWaiting ≠ true from hwaiting),
      Bool.false_or] at hwork
    exact ⟨⟨htimed.within, htimed.ahead, fun h => htimed.awake (hwork ▸ h),
      fun h => htimed.alarm (hwork ▸ h)⟩, leads_of_reaches ⟨rfl, hfollows⟩, rfl⟩

theorem keeps_shutdown (n : Node) : Keeps n n.shutdown := by
  refine (keeps_close n).keeps.trans ?_
  show Keeps _ (if n.bus.shutdown.1 then _ else _)
  split
  · exact keeps_drainWithin maxMoves _
  · exact .refl _

/-! ### Whatever is asked of a node -/

/-- What a node can be asked for. -/
inductive Command where
  | register (name : String) (l : Listener)
  | unregister (name : String)
  | registerTransactional (name : String) (l : Listener)
  | unregisterTransactional (name : String)
  | attachLocks
  | attachAccess
  | send (m : Bus.Message Listener)
  | sendWithin (m : Bus.Message Listener) (c : Connection)
  | post (m : Bus.Message Listener) (delay : Nat)
  | postPack (p : Bus.Pack Listener)
  | start (hasRuntime : Bool)
  | shutdown
  /-- A lock call begins. -/
  | request (name : Lock.CallId) (r : Lock.Request)
  | unlock (resourceType : String) (id : Int) (p : Lock.Service.Party)
  | unlockAll (resourceType : String) (ids : List Int) (p : Lock.Service.Party)
  | createResource (d : Lock.TypeDecl)
  | collectGarbage
  /-- An operation of the access service. -/
  | access (f : Access.Service → Access.Service)
  /-- Everything happens that can happen now. -/
  | settle
  | advance (span : Nat)

/-- The node after a command. -/
def execute (n : Node) : Command → Node
  | .register name l => { n with bus := n.bus.register name l }
  | .unregister name => { n with bus := (n.bus.unregister name).2 }
  | .registerTransactional name l => { n with bus := n.bus.registerTransactional name l }
  | .unregisterTransactional name => { n with bus := (n.bus.unregisterTransactional name).2 }
  | .attachLocks => n.attachLocks
  | .attachAccess => n.attachAccess
  | .send m => (n.send m).2
  | .sendWithin m c => (n.sendWithin m c).2.2
  | .post m delay => (n.post m delay).2
  | .postPack p => (n.postPack p).2
  | .start hasRuntime => (n.start hasRuntime).2
  | .shutdown => n.shutdown
  | .request name r => n.request name r
  | .unlock resourceType id p => (n.unlock resourceType id p).2
  | .unlockAll resourceType ids p => (n.unlockAll resourceType ids p).2
  | .createResource d => (n.createResource d).2
  | .collectGarbage => n.collectGarbage.2
  | .access f => (n.withAccess fun s => ((), f s)).2
  | .settle => n.settle
  | .advance span => n.advance span

theorem attends_sendWithin (n : Node) (m : Bus.Message Listener) (c : Connection) :
    Attends n (n.sendWithin m c).2.2 := by
  have hcalls := Bus.rel_callTransactional (fun l n => attends_call maxDepth l m n)
    n.bus.transactional.values (n.withConnection c)
  exact ((attends_withConnection n c).trans hcalls).trans (attends_withConnection _ .none)

theorem keeps_execute (n : Node) (c : Command) : Keeps n (n.execute c) := by
  have hattends : ∀ {n'}, Attends n n' → Keeps n n' := fun h => h.keeps.keeps
  cases c with
  | register name l => exact hattends (attends_of_apply (.register name l) rfl rfl rfl rfl rfl)
  | unregister name => exact hattends (attends_of_apply (.unregister name) rfl rfl rfl rfl rfl)
  | registerTransactional name l =>
    exact hattends (attends_of_apply (.registerTransactional name l) rfl rfl rfl rfl rfl)
  | unregisterTransactional name =>
    exact hattends (attends_of_apply (.unregisterTransactional name) rfl rfl rfl rfl rfl)
  | attachLocks =>
    exact hattends
      (attends_of_apply (.register lockCollectorName .lockCollector) rfl rfl rfl rfl rfl)
  | attachAccess =>
    have hregister : Attends n
        { n with bus := n.bus.register sessionKeeperName .sessionKeeper } :=
      attends_of_apply (.register sessionKeeperName .sessionKeeper) rfl rfl rfl rfl rfl
    exact hattends (hregister.trans (attends_of_eq rfl rfl))
  | send m => exact hattends (Bus.rel_dispatch (attends_call maxDepth) m n)
  | sendWithin m c => exact hattends (attends_sendWithin n m c)
  | post m delay => exact hattends (attends_post n m delay)
  | postPack p => exact hattends (attends_postPack n p)
  | start hasRuntime => exact (keeps_start n hasRuntime).keeps
  | shutdown => exact keeps_shutdown n
  | request name r =>
    exact hattends (@attends_of_wakeAll n (n.request name r) [.lockCall name] rfl rfl)
  | unlock resourceType id p => exact hattends (attends_putLocks _ _ _)
  | unlockAll resourceType ids p => exact hattends (attends_putLocks _ _ _)
  | createResource d =>
    show Keeps n (n.createResource d).2
    unfold createResource
    split
    · exact .refl n
    · exact hattends (attends_putLocks _ _ _)
  | collectGarbage => exact hattends (attends_putLocks _ _ _)
  | access f => exact hattends (attends_withAccess n _)
  | settle => exact (keeps_settle n).keeps
  | advance span => exact keeps_advanceWithin _ (Nat.le_add_right _ _)

theorem keeps_foldl_execute (n : Node) (cs : List Command) : Keeps n (cs.foldl execute n) := by
  induction cs generalizing n with
  | nil => exact .refl n
  | cons c rest ih => exact (keeps_execute n c).trans (ih _)

/-- Whatever is asked of a node, its bus has a history with the node as its
stage. The history is settled when no task of the node is ready. -/
theorem exists_history (settings : Bus.Settings) (locks : Lock.Service) (access : Access.Service)
    (cs : List Command) :
    ∃ h : Bus.History Listener Listener Services, h.stage = stage ∧ h.settings = settings ∧
      h.after h.events.length = cs.foldl execute (ofServices settings locks access) ∧
      ((cs.foldl execute (ofServices settings locks access)).host.timeline.ready = [] →
        h.Settled h.events.length) := by
  have hfirst : (ofServices settings locks access).Timed :=
    ⟨Nat.zero_le _, fun e he => (by cases he), fun h => (by cases h), fun _ d hd => by cases hd⟩
  obtain ⟨htimed, es, hes⟩ := keeps_foldl_execute _ cs hfirst
  let h : Bus.History Listener Listener Services := ⟨stage, settings, { locks, access }, es, Nat.zero_le _⟩
  have hafter : h.after h.events.length
      = cs.foldl execute (ofServices settings locks access) := by
    rw [hes]
    unfold Bus.History.after
    rw [List.take_length]
    rfl
  refine ⟨h, rfl, rfl, hafter, fun hready => ?_⟩
  unfold Bus.History.Settled Bus.History.bus Bus.History.now
  rw [hafter]
  generalize cs.foldl execute (ofServices settings locks access) = n at *
  show Bus.deed? n.bus n.now = none
  rw [← Option.isNone_iff_eq_none, ← Option.isSome_eq_false_iff, ← Bus.hasWork_eq]
  refine Bool.eq_false_iff.mpr fun hwork => ?_
  have hmem := htimed.awake hwork
  rw [hready] at hmem
  cases hmem

end Node

end Backplane
