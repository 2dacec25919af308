import Backplane.Node.Basic
import Backplane.Proofs.Bus.Operation

/-!
# `Backplane.Proofs.Node.Stage`: a node as the stage of its bus

The listeners of a node follow scripts, send messages, unlock resources and
keep the sessions of the access service. Whatever they do, they use the bus
through its operations, and the clock of the node stands still meanwhile.
So a node is a stage, `stage`, and what is proved of the histories of a bus
holds of the bus of a node.

Listeners also leave the timers of the node alone, and they wake the worker
of the bus when they queue a message that it waits for: `Attends` says all of
this. It holds for whoever asks a node for something, except for a start and
a shutdown of the bus. The main statements:

* `attends_post`, `attends_withAccess`, `attends_putLocks`: what the services of
  a node do.
* `attends_act`, `attends_follow`: an action of a script, and a script.
* `attends_call`: the call of any listener, however far calls are nested.
-/

set_option autoImplicit false

namespace Backplane

namespace Timeline

variable {τ : Type} [DecidableEq τ] (t : Timeline τ) (tasks : List τ)

theorem wakeAll_cons (task : τ) : t.wakeAll (task :: tasks) = (t.wake task).wakeAll tasks := rfl

theorem wakeAll_append (more : List τ) :
    t.wakeAll (tasks ++ more) = (t.wakeAll tasks).wakeAll more :=
  List.foldl_append

@[simp] theorem now_wake (task : τ) : (t.wake task).now = t.now := by
  unfold wake
  split <;> rfl

@[simp] theorem timers_wake (task : τ) : (t.wake task).timers = t.timers := by
  unfold wake
  split <;> rfl

@[simp] theorem now_wakeAll : (t.wakeAll tasks).now = t.now := by
  induction tasks generalizing t with
  | nil => rfl
  | cons task rest ih => rw [wakeAll_cons, ih, now_wake]

@[simp] theorem timers_wakeAll : (t.wakeAll tasks).timers = t.timers := by
  induction tasks generalizing t with
  | nil => rfl
  | cons task rest ih => rw [wakeAll_cons, ih, timers_wake]

theorem mem_ready_wakeAll {t : Timeline τ} {tasks : List τ} {a : τ} :
    a ∈ (t.wakeAll tasks).ready ↔ a ∈ tasks ∨ a ∈ t.ready := by
  induction tasks generalizing t with
  | nil => simp [wakeAll]
  | cons task rest ih =>
    rw [wakeAll_cons, ih, mem_ready_wake, List.mem_cons, or_left_comm, or_assoc]

end Timeline

namespace Node

open Bus (Caller Follows Reaches)

/-- The time that the listeners of a node go by. -/
def clock (w : Services) : Nat := w.timeline.now

/-- From `n` to `n'` the bus is used through its operations and neither started
nor closed. Tasks are woken, and nothing else happens to the timeline. The
worker is among them if a message is queued that it waits for. -/
structure Attends (n n' : Node) : Prop where
  follows : Follows n.now n.bus n'.bus
  worker_eq : n'.bus.worker = n.bus.worker
  isOpen_eq : n'.bus.isOpen = n.bus.isOpen
  timeline : ∃ tasks, n'.host.timeline = n.host.timeline.wakeAll tasks
  wakes : n.bus.worker.isWaiting = true →
    n'.bus.queue = n.bus.queue ∨ .worker ∈ n'.host.timeline.ready

variable {n n₁ n' : Node}

theorem Attends.now_eq (h : Attends n n') : n'.now = n.now := by
  obtain ⟨tasks, htimeline⟩ := h.timeline
  exact (congrArg Timeline.now htimeline).trans (Timeline.now_wakeAll _ _)

theorem Attends.reaches (h : Attends n n') : Reaches clock n n' := ⟨h.now_eq, h.follows⟩

theorem Attends.refl (n : Node) : Attends n n :=
  ⟨.refl _ _, rfl, rfl, ⟨[], rfl⟩, fun _ => .inl rfl⟩

theorem Attends.trans (h : Attends n n₁) (h' : Attends n₁ n') : Attends n n' := by
  obtain ⟨tasks, htimeline⟩ := h.timeline
  obtain ⟨more, htimeline'⟩ := h'.timeline
  refine ⟨h.follows.trans (h.now_eq ▸ h'.follows), h'.worker_eq.trans h.worker_eq,
    h'.isOpen_eq.trans h.isOpen_eq, ⟨tasks ++ more, ?_⟩, fun hwaiting => ?_⟩
  · rw [htimeline', htimeline, Timeline.wakeAll_append]
  · rcases h'.wakes (by rwa [h.worker_eq]) with heq | hready
    · refine (h.wakes hwaiting).imp heq.trans fun hready => ?_
      -- Who was woken stays ready.
      rw [htimeline']
      exact Timeline.mem_ready_wakeAll.mpr (.inr hready)
    · exact .inr hready

instance : IsPreorder Node Attends where
  refl := .refl
  trans _ _ _ := .trans

/-- What leaves the bus alone and at most wakes tasks. -/
theorem attends_of_wakeAll {tasks : List Task} (hbus : n'.bus = n.bus)
    (htimeline : n'.host.timeline = n.host.timeline.wakeAll tasks) : Attends n n' :=
  ⟨by rw [hbus]; exact .refl _ _, by rw [hbus], by rw [hbus], ⟨tasks, htimeline⟩,
    fun _ => .inl (by rw [hbus])⟩

/-- What leaves the bus and the timeline alone. -/
theorem attends_of_eq (hbus : n'.bus = n.bus) (htimeline : n'.host.timeline = n.host.timeline) :
    Attends n n' :=
  @attends_of_wakeAll n n' [] hbus htimeline

/-- What asks the bus for an operation that is about listeners. -/
theorem attends_of_apply (o : Bus.Operation Listener Listener)
    (hbus : n'.bus = n.bus.apply n.now o) (hhost : n'.host = n.host)
    (hworker : n'.bus.worker = n.bus.worker) (hopen : n'.bus.isOpen = n.bus.isOpen)
    (hqueue : n'.bus.queue = n.bus.queue) : Attends n n' :=
  ⟨by rw [hbus]; exact Bus.follows_apply _ _ o, hworker, hopen, ⟨[], by rw [hhost]; rfl⟩,
    fun _ => .inl hqueue⟩

theorem attends_note (n : Node) (e : Entry) : Attends n (n.note e) := attends_of_eq rfl rfl

theorem attends_withConnection (n : Node) (c : Connection) : Attends n (n.withConnection c) :=
  attends_of_eq rfl rfl

/-! ### The services of a node -/

/-- Messages are queued, and the worker is woken if it waits for one. -/
theorem attends_wakeWorker (n : Node) {bus : Bus Listener Listener}
    (hfollows : Follows n.now n.bus bus) (hworker : bus.worker = n.bus.worker)
    (hopen : bus.isOpen = n.bus.isOpen) : Attends n (wakeWorker { n with bus }) := by
  unfold wakeWorker
  split
  · refine ⟨hfollows, hworker, hopen, ⟨[.worker], rfl⟩, fun _ => .inr ?_⟩
    exact (Timeline.mem_ready_wake _ _ _).mpr (.inl rfl)
  · rename_i hwaiting
    refine ⟨hfollows, hworker, hopen, ⟨[], rfl⟩, fun hwaiting' => ?_⟩
    change ¬ bus.worker.isWaiting = true at hwaiting
    exact absurd (hworker ▸ hwaiting') hwaiting

theorem attends_post (n : Node) (m : Bus.Message Listener) (delay : Nat) :
    Attends n (n.post m delay).2 := by
  have hfollows : Follows n.now n.bus (n.bus.send m delay n.now).2 :=
    Bus.follows_apply n.bus n.now (.send m (some delay))
  unfold post
  unfold Bus.send at hfollows ⊢
  cases h : n.bus.accepts with
  | false => exact .refl n
  | true =>
    rw [h] at hfollows
    exact attends_wakeWorker n hfollows rfl rfl

theorem attends_postPack (n : Node) (p : Bus.Pack Listener) : Attends n (n.postPack p).2 := by
  have hfollows : Follows n.now n.bus (n.bus.sendPack p n.now).2 :=
    Bus.follows_apply n.bus n.now (.sendPack p)
  unfold postPack
  unfold Bus.sendPack at hfollows ⊢
  cases h : n.bus.accepts with
  | false => exact .refl n
  | true =>
    rw [h] at hfollows
    simp only [if_true]
    split
    · exact attends_wakeWorker n hfollows rfl rfl
    · -- The pack is empty.
      rename_i hsize
      have hnone : p.parcels = [] := List.eq_nil_of_length_eq_zero (Nat.eq_zero_of_not_pos hsize)
      exact ⟨hfollows, rfl, rfl, ⟨[], rfl⟩, fun _ => .inl (by simp [hnone])⟩

theorem attends_deliverNews (n : Node) : Attends n n.deliverNews := by
  have hfold : ∀ (news : List Access.Announcement) (n : Node),
      Attends n (news.foldl postNews n) := by
    intro news
    induction news with
    | nil => exact fun n => .refl n
    | cons a rest ih => exact fun n => (attends_post n _ _).trans (ih _)
  have hempty : Attends n { n with
      host := { n.host with access := { n.host.access with outbox := [] } } } :=
    attends_of_eq rfl rfl
  unfold deliverNews
  simp only
  split
  · exact hempty.trans (hfold _ _)
  · exact hempty

theorem attends_withAccess {α : Type} (n : Node) (f : Access.Service → α × Access.Service) :
    Attends n (n.withAccess f).2 := by
  have hrun : Attends n { n with host := { n.host with access := (f n.host.access).2 } } :=
    attends_of_eq rfl rfl
  exact hrun.trans (attends_deliverNews _)

theorem attends_putLocks (n : Node) (locks : Lock.Service) (woken : List Lock.CallId) :
    Attends n (n.putLocks locks woken) :=
  attends_of_wakeAll rfl rfl

theorem attends_keepSessions (m : Bus.Message Listener) (n : Node) :
    Attends n (keepSessions m n).2 := by
  unfold keepSessions
  split
  · split
    · exact .refl n
    · exact attends_withAccess n fun s => ((), s.registerLogon _ _)
  · split
    · split
      · exact .refl n
      · exact attends_withAccess n fun s => s.registerLogout _
    · split
      · exact attends_withAccess n Access.Service.purge
      · exact .refl n

theorem attends_collectLocks (m : Bus.Message Listener) (n : Node) :
    Attends n (collectLocks m n).2 := by
  unfold collectLocks
  simp only
  split
  · exact attends_putLocks _ _ _
  · exact .refl n

/-! ### Scripts -/

section Script

variable {call : Caller Listener Listener Services}

/-- An action of a script, if what it sends does no more. -/
theorem attends_act (hcall : ∀ l m n, Attends n (call l m n).2) (listener : String)
    (m : Bus.Message Listener) (a : Action) (n : Node) :
    Attends n (act call listener m a n).2 := by
  cases a with
  | readText key | readSigned key => exact attends_of_eq rfl rfl
  | register name l => exact attends_of_apply (.register name l) rfl rfl rfl rfl rfl
  | unregister name =>
    have hunregister : Attends n { n with bus := (n.bus.unregister name).2 } :=
      attends_of_apply (.unregister name) rfl rfl rfl rfl rfl
    exact hunregister.trans (attends_note _ _)
  | send id originator context =>
    have hsend := Bus.rel_dispatch hcall { id, originator, context } (n.withConnection .none)
    have hinner : Attends n (withConnection
        (Bus.dispatch call { id, originator, context } (n.withConnection .none)).2
        n.host.connection) :=
      ((attends_withConnection n .none).trans hsend).trans (attends_withConnection _ _)
    unfold act
    simp only
    split
    · exact hinner.trans (attends_note _ _)
    · exact hinner
  | post id delay context =>
    exact (attends_post n _ _).trans (attends_note _ _)
  | unlock resourceType id user =>
    have hunlock : Attends n (n.unlock resourceType id (.one user)).2 :=
      attends_putLocks _ _ _
    unfold act
    simp only
    split
    · rename_i heq
      rwa [heq] at hunlock
    · rename_i heq
      rwa [heq] at hunlock
  | journal v =>
    unfold act
    simp only
    split
    · exact attends_withConnection n _
    · exact .refl n

theorem attends_actAll (hcall : ∀ l m n, Attends n (call l m n).2) (listener : String)
    (m : Bus.Message Listener) (actions : List Action) (n : Node) :
    Attends n (actAll call listener m actions n).2 := by
  induction actions generalizing n with
  | nil => exact .refl n
  | cons a rest ih =>
    have hact := attends_act hcall listener m a n
    rw [actAll]
    split
    · rename_i heq
      rw [heq] at hact
      exact hact.trans (ih _)
    · exact hact

theorem attends_follow (hcall : ∀ l m n, Attends n (call l m n).2) (listener : String)
    (rules : List Rule) (keys : List String) (m : Bus.Message Listener) (n : Node) :
    Attends n (follow call listener rules keys m n).2 := by
  have hnote := attends_note n (.called n.now listener m.id m.originator
    (keys.filterMap fun key => (m.context.get? key).map fun v => (key, v)))
  unfold follow
  simp only
  split
  · exact hnote
  · rename_i ids actions verdict _
    have hactions := hnote.trans (attends_actAll hcall listener m actions _)
    split
    · rename_i heq
      rw [heq] at hactions
      exact hactions
    · rename_i heq
      rw [heq] at hactions
      exact hactions

end Script

/-- The call of a listener of a node, by induction on how far it may be
nested. -/
theorem attends_call (depth : Nat) (l : Listener) (m : Bus.Message Listener) (n : Node) :
    Attends n (call depth l m n).2 := by
  induction depth generalizing l m n with
  | zero => exact .refl n
  | succ depth ih =>
    cases l with
    | scripted name rules keys => exact attends_follow ih name rules keys m n
    | lockCollector => exact attends_collectLocks m n
    | sessionKeeper => exact attends_keepSessions m n

/-- A node as the stage of its bus. -/
def stage : Bus.Stage Listener Listener Services where
  call := call maxDepth
  clock := clock
  exists_clock w t := ⟨{ w with timeline := { w.timeline with now := t } }, rfl⟩
  reaches_call l m n := (attends_call maxDepth l m n).reaches

end Node

end Backplane
