import Backplane.Proofs.Bus.Calls
import Mathlib.Order.Defs.Unbundled

/-!
# `Backplane.Proofs.Bus.Operation`: what callers and listeners do to a bus

Whoever holds a bus can only ask for its operations, and listeners are no
exception. An operation leaves the worker and the count of deliveries
alone, and queues messages at the end or not at all: `Grows` says so. A
`Stage` is what plays around a bus: what its listeners do, and the clock
that they go by. A call of a listener takes no time and uses the bus
through operations, which is what `Reaches` says. The main statements:

* `apply_send`, `apply_sendPack`: a bus takes all the messages that an
  operation offers, in their order, or none of them.
* `Grows.trans`, `grows_apply`: a sequence of operations grows the bus.
* `rel_callUntil`, `rel_dispatch`: what holds between the states before and
  after each call of a listener holds for a whole dispatch, however many
  listeners it calls and whatever they answer.
-/

set_option autoImplicit false

namespace Backplane.Bus

variable {L T W : Type}

/-- What a bus can be asked for. -/
inductive Operation (L T : Type) where
  | register (name : String) (l : L)
  | unregister (name : String)
  | registerTransactional (name : String) (l : T)
  | unregisterTransactional (name : String)
  /-- Sends a message for later, with the delay of the settings if none is
  given. -/
  | send (m : Message L) (delay : Option Nat)
  | sendPack (p : Pack L)
  | start (hasRuntime : Bool)
  | shutdown

/-- The bus after an operation. -/
def apply (b : Bus L T) (now : Nat) : Operation L T → Bus L T
  | .register name l => b.register name l
  | .unregister name => (b.unregister name).2
  | .registerTransactional name l => b.registerTransactional name l
  | .unregisterTransactional name => (b.unregisterTransactional name).2
  | .send m delay => (b.send m (delay.getD b.settings.defaultDelay) now).2
  | .sendPack p => (b.sendPack p now).2
  | .start hasRuntime => (b.start hasRuntime).toOption.getD b
  | .shutdown => b.shutdown.2

/-- The messages that an operation asks the bus to take. -/
def Operation.offers (b : Bus L T) (now : Nat) : Operation L T → List (Envelope L)
  | .send m delay => [⟨m, now, delay.getD b.settings.defaultDelay⟩]
  | .sendPack p => p.parcels.map fun q => ⟨q.message, now, q.delay⟩
  | _ => []

theorem sentAt_of_mem_offers {b : Bus L T} {now : Nat} {o : Operation L T} {e : Envelope L}
    (he : e ∈ o.offers b now) : e.sentAt = now := by
  cases o with
  | send m delay =>
    rw [List.mem_singleton.mp he]
  | sendPack p =>
    obtain ⟨q, _, rfl⟩ := List.mem_map.mp he
    rfl
  | _ => cases he

/-- The bus after it was offered messages: it takes all of them, or none. -/
def offered (b : Bus L T) (es : List (Envelope L)) : Bus L T :=
  { b with queue := b.queue ++ if b.accepts then es else [] }

theorem apply_send (b : Bus L T) (now : Nat) (m : Message L) (delay : Option Nat) :
    b.apply now (.send m delay) = b.offered ((Operation.send m delay).offers b now) := by
  show (b.send m _ now).2 = _
  unfold send offered
  split <;> simp [*, Operation.offers]

theorem apply_sendPack (b : Bus L T) (now : Nat) (p : Pack L) :
    b.apply now (.sendPack p) = b.offered ((Operation.sendPack p).offers b now) := by
  show (b.sendPack p now).2 = _
  unfold sendPack offered
  split <;> simp [*, Operation.offers]

/-- A start has no effect, or lets a worker run. -/
theorem apply_start (b : Bus L T) (now : Nat) (hasRuntime : Bool) :
    b.apply now (.start hasRuntime) = b ∨ b.worker = .unstarted ∧
      b.apply now (.start hasRuntime) = { b with worker := .spawned, hasHandle := true } := by
  show (b.start hasRuntime).toOption.getD b = b ∨
    _ ∧ (b.start hasRuntime).toOption.getD b = { b with worker := .spawned, hasHandle := true }
  unfold start
  split
  · exact .inl rfl
  · split
    · rename_i hw
      exact .inr ⟨hw, rfl⟩
    · exact .inl rfl

/-- A bus that is closed, or whose worker has panicked, takes no message. -/
theorem accepts_eq_false {b : Bus L T} (h : b.isOpen = false ∨ b.worker = .failed) :
    b.accepts = false := by
  unfold accepts
  rcases h with h | h <;> simp [h]

/-- The handle of a worker that was started is there until the bus is shut
down. -/
def Joinable (b : Bus L T) : Prop :=
  b.worker ≠ .unstarted → b.hasHandle = false → b.isOpen = false

/-- What operations can make of a bus at one time: messages of this time
stand at the end of its queue, the worker may have been started, and
nothing has been delivered. A handle that was taken does not come back. -/
structure Grows (now : Nat) (b b' : Bus L T) : Prop where
  settings_eq : b'.settings = b.settings
  delivered_eq : b'.delivered = b.delivered
  worker : b'.worker = b.worker ∨ b.worker = .unstarted ∧ b'.worker = .spawned
  closed : b.isOpen = false → b'.isOpen = false
  taken : b.worker ≠ .unstarted → b.hasHandle = false → b'.hasHandle = false
  joinable : b.Joinable → b'.Joinable
  queue : ∃ sent, b'.queue = b.queue ++ sent ∧ (∀ e ∈ sent, e.sentAt = now) ∧
    (b.isOpen = false ∨ b.worker = .failed → sent = [])

variable {now : Nat} {b b₁ b' : Bus L T}

theorem Grows.refl (now : Nat) (b : Bus L T) : Grows now b b :=
  ⟨rfl, rfl, .inl rfl, id, fun _ => id, id, [], (List.append_nil _).symm, by simp, fun _ => rfl⟩

/-- A worker that was started stays as it is. -/
theorem Grows.worker_eq (h : Grows now b b') (hw : b.worker ≠ .unstarted) :
    b'.worker = b.worker :=
  h.worker.resolve_right fun hstart => hw hstart.1

theorem Grows.trans (h : Grows now b b₁) (h' : Grows now b₁ b') : Grows now b b' := by
  obtain ⟨sent, hqueue, hsent, hnone⟩ := h.queue
  obtain ⟨more, hqueue', hmore, hnone'⟩ := h'.queue
  have hstarted : b.worker ≠ .unstarted → b₁.worker ≠ .unstarted := fun hw => by
    rwa [h.worker_eq hw]
  refine ⟨h'.settings_eq.trans h.settings_eq, h'.delivered_eq.trans h.delivered_eq, ?_,
    fun hclosed => h'.closed (h.closed hclosed),
    fun hw htaken => h'.taken (hstarted hw) (h.taken hw htaken),
    fun hjoinable => h'.joinable (h.joinable hjoinable), sent ++ more, ?_, fun e he => ?_,
    fun hrefuses => ?_⟩
  · rcases h.worker with hw | ⟨hw, hw₁⟩
    · rw [← hw]
      exact h'.worker
    · -- The worker is started once.
      rw [h'.worker_eq (by rw [hw₁]; exact fun heq => nomatch heq)]
      exact .inr ⟨hw, hw₁⟩
  · rw [hqueue', hqueue, List.append_assoc]
  · exact (List.mem_append.mp he).elim (hsent e) (hmore e)
  · have hrefuses' : b₁.isOpen = false ∨ b₁.worker = .failed := by
      refine hrefuses.imp h.closed fun hfailed => ?_
      rw [h.worker_eq (by rw [hfailed]; exact fun heq => nomatch heq), hfailed]
    rw [hnone hrefuses, hnone' hrefuses']
    rfl

theorem grows_offered {es : List (Envelope L)} (hes : ∀ e ∈ es, e.sentAt = now) :
    Grows now b (b.offered es) := by
  refine ⟨rfl, rfl, .inl rfl, id, fun _ => id, id, _, rfl, fun e he => ?_, fun hrefuses => ?_⟩
  · split at he
    · exact hes e he
    · cases he
  · rw [accepts_eq_false hrefuses]
    rfl

/-- What leaves the queue, the worker and the count alone, and takes the handle
only if it closes the queue. -/
theorem grows_of_eq (hsettings : b'.settings = b.settings) (hdelivered : b'.delivered = b.delivered)
    (hworker : b'.worker = b.worker) (hqueue : b'.queue = b.queue)
    (hopen : b'.isOpen = b.isOpen ∧ b'.hasHandle = b.hasHandle ∨
      b'.isOpen = false ∧ b'.hasHandle = false) : Grows now b b' := by
  refine ⟨hsettings, hdelivered, .inl hworker, fun hclosed => ?_, fun _ htaken => ?_,
    fun hjoinable hw htaken => ?_, [], by rw [hqueue, List.append_nil], by simp, fun _ => rfl⟩
  · rcases hopen with ⟨hopen, _⟩ | ⟨hopen, _⟩
    · rw [hopen, hclosed]
    · exact hopen
  · rcases hopen with ⟨_, hhandle⟩ | ⟨_, hhandle⟩
    · rw [hhandle, htaken]
    · exact hhandle
  · rcases hopen with ⟨hopen, hhandle⟩ | ⟨hopen, _⟩
    · rw [hopen]
      exact hjoinable (hworker ▸ hw) (hhandle ▸ htaken)
    · exact hopen

/-- An operation grows the bus. -/
theorem grows_apply (b : Bus L T) (now : Nat) (o : Operation L T) :
    Grows now b (b.apply now o) := by
  cases o with
  | send m delay =>
    rw [apply_send]
    exact grows_offered fun e he => sentAt_of_mem_offers he
  | sendPack p =>
    rw [apply_sendPack]
    exact grows_offered fun e he => sentAt_of_mem_offers he
  | start hasRuntime =>
    rcases apply_start b now hasRuntime with h | ⟨hw, h⟩
    · rw [h]
      exact .refl now b
    · rw [h]
      exact ⟨rfl, rfl, .inr ⟨hw, rfl⟩, id, fun hstarted => absurd hw hstarted,
        fun _ _ htaken => (nomatch htaken), [], (List.append_nil _).symm, by simp, fun _ => rfl⟩
  -- The rest touches neither the queue nor the worker, a shutdown included.
  | shutdown => exact grows_of_eq rfl rfl rfl rfl (.inr ⟨rfl, rfl⟩)
  | register name l | unregister name | registerTransactional name l
  | unregisterTransactional name => exact grows_of_eq rfl rfl rfl rfl (.inl ⟨rfl, rfl⟩)

/-- So does a sequence of operations. -/
theorem grows_foldl_apply (b : Bus L T) (now : Nat) (ops : List (Operation L T)) :
    Grows now b (ops.foldl (fun b o => b.apply now o) b) := by
  induction ops generalizing b with
  | nil => exact .refl now b
  | cons o rest ih => exact (grows_apply b now o).trans (ih _)

/-- Operations at one time lead from one state of a bus to another. -/
def Follows (now : Nat) (b b' : Bus L T) : Prop :=
  ∃ ops : List (Operation L T), b' = ops.foldl (fun b o => b.apply now o) b

theorem Follows.refl (now : Nat) (b : Bus L T) : Follows now b b := ⟨[], rfl⟩

theorem Follows.trans (h : Follows now b b₁) (h' : Follows now b₁ b') : Follows now b b' := by
  obtain ⟨ops, rfl⟩ := h
  obtain ⟨more, rfl⟩ := h'
  exact ⟨ops ++ more, List.foldl_append.symm⟩

theorem follows_apply (b : Bus L T) (now : Nat) (o : Operation L T) :
    Follows now b (b.apply now o) :=
  ⟨[o], rfl⟩

theorem Follows.grows (h : Follows now b b') : Grows now b b' := by
  obtain ⟨ops, rfl⟩ := h
  exact grows_foldl_apply b now ops

/-! ### Calls of listeners -/

section Calls

/- Whatever relates the states before and after each call of a listener
relates those before and after all calls, if it is reflexive and transitive. -/
variable {σ : Type} {R : σ → σ → Prop} [IsPreorder σ R]

theorem rel_callUntil {call : L → σ → Reply × σ} (hcall : ∀ l s, R s (call l s).2)
    (stops : Reply → Bool) (ls : List L) (s : σ) : R s (callUntil stops call ls s).2 := by
  induction ls generalizing s with
  | nil => exact refl_of R s
  | cons l rest ih =>
    cases h : stops (call l s).1 with
    | true =>
      -- This was the last call.
      rw [callUntil_cons_stop rest h]
      exact hcall l s
    | false =>
      rw [callUntil_cons_next rest h]
      exact trans_of R (hcall l s) (ih _)

theorem rel_callAll {call : L → σ → Reply × σ} (hcall : ∀ l s, R s (call l s).2) (ls : List L)
    (s : σ) : R s (callAll call ls s).2 := by
  rw [callAll_eq]
  exact rel_callUntil hcall _ ls s

theorem rel_callPostActions {call : L → σ → Reply × σ} (hcall : ∀ l s, R s (call l s).2)
    (ls : List L) (s : σ) : R s (callPostActions call ls s).2 := by
  rw [callPostActions_eq]
  exact rel_callUntil hcall _ ls s

theorem rel_callTransactional {call : T → σ → Reply × σ} (hcall : ∀ l s, R s (call l s).2)
    (ls : List T) (s : σ) : R s (callTransactional call ls s).2 := by
  rw [callTransactional_eq]
  exact rel_callUntil hcall _ ls s

end Calls

section Dispatch

variable {R : Hosted L T W → Hosted L T W → Prop} [IsPreorder (Hosted L T W) R]
  {call : Caller L T W}

theorem rel_dispatch (hcall : ∀ l m s, R s (call l m s).2) (m : Message L) (s : Hosted L T W) :
    R s (dispatch call m s).2 := by
  have hall := rel_callAll (fun l s => hcall l m s) s.bus.listeners.values s
  have hpost := rel_callPostActions (fun l s => hcall l m s) m.context.postActions
    (callAll (fun l => call l m) s.bus.listeners.values s).2
  rw [dispatch_snd]
  exact trans_of R hall hpost

theorem rel_foldl_dispatch (hcall : ∀ l m s, R s (call l m s).2) (ids : List MessageId)
    (s : Hosted L T W) : R s (ids.foldl (fun s id => (dispatch call { id } s).2) s) := by
  induction ids generalizing s with
  | nil => exact refl_of R s
  | cons id rest ih => exact trans_of R (rel_dispatch hcall { id } s) (ih _)

end Dispatch

/-- What happens from `s` to `s'` takes no time and uses the bus through its
operations. -/
structure Reaches (clock : W → Nat) (s s' : Hosted L T W) : Prop where
  clock_eq : clock s'.host = clock s.host
  follows : Follows (clock s.host) s.bus s'.bus

section Reaches

variable {clock : W → Nat} {s s₁ s' : Hosted L T W}

theorem Reaches.refl (clock : W → Nat) (s : Hosted L T W) : Reaches clock s s :=
  ⟨rfl, .refl _ _⟩

theorem Reaches.trans (h : Reaches clock s s₁) (h' : Reaches clock s₁ s') :
    Reaches clock s s' :=
  ⟨h'.clock_eq.trans h.clock_eq, h.follows.trans (h.clock_eq ▸ h'.follows)⟩

instance (clock : W → Nat) : IsPreorder (Hosted L T W) (Reaches clock) where
  refl := .refl clock
  trans _ _ _ := .trans

theorem Reaches.grows (h : Reaches clock s s') : Grows (clock s.host) s.bus s'.bus :=
  h.follows.grows

end Reaches

/-- What plays around a bus: what its listeners do, and the clock that they
go by. -/
structure Stage (L T W : Type) where
  call : Caller L T W
  clock : W → Nat
  /-- The clock can tell every time. -/
  exists_clock : ∀ (_ : W) (t : Nat), ∃ w, clock w = t
  reaches_call : ∀ l m s, Reaches clock s (call l m s).2

/-- Listeners that answer, each in its own way, and do nothing else. There is
nothing around the bus but a clock. -/
def Stage.plain : Stage Reply Reply Nat where
  call l _ s := (l, s)
  clock := id
  exists_clock _ t := ⟨t, rfl⟩
  reaches_call _ _ s := .refl id s

end Backplane.Bus
