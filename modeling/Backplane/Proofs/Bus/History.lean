import Backplane.Proofs.Bus.Worker
import Mathlib.Data.Nat.Init

/-!
# `Backplane.Proofs.Bus.History`: histories of a bus

A history starts with a new bus on a stage and is a list of events: uses of
the bus by anybody, messages that are dispatched at once, moves of the
worker, and changes around the bus, in any order. `h.after n` is the bus
and what is around it after the first `n` of them. Time passes around the
bus, and only while the worker has nothing to do, and never beyond the time
that the worker waits for, nor beyond the last time that the clock can tell:
so does a virtual clock, which lets everything happen that can happen at one
time before it moves on. That the tasks and timers of a node make such
histories is shown in `Backplane.Proofs.Node.Schedule`.

What happens is noted in three logs: `accepted`, the messages that the bus
has taken for later, `dispatched`, those that the worker has dispatched and
when, and `lost`, those that it has taken out of the queue and not
dispatched because the clock cannot tell when they are due. The main
statements:

* `change`: every event uses the bus, lets time pass, or is a deed of the
  worker.
* `delivery?_iff`: what is logged as dispatched are the dispatches that the
  worker makes of the messages that it holds.
* `accepted_eq`: what has been accepted has been dispatched or lost, is in
  the hands of the worker, or waits in the queue, in this order.
* `failed_iff`: the worker ends by a panic if and only if a post action has
  panicked in a dispatch of the worker, or a message has been lost.
-/

set_option autoImplicit false

namespace Backplane.Bus

variable {L T W : Type}

/-- What can happen to a bus. -/
inductive Event (L T W : Type) where
  /-- Somebody asks the bus for something. -/
  | use (o : Operation L T)
  /-- Somebody dispatches a message at once. -/
  | dispatch (m : Message L)
  /-- The worker is let run for one move. -/
  | work
  /-- Something changes around the bus, and time may pass. -/
  | around (w : W)

namespace Stage

/-- Whether the surroundings of the bus may become `w`: time passes only if
the worker has nothing to do, and not beyond what it waits for, nor beyond
the horizon of the clock. -/
def allows (S : Stage L T W) (s : Hosted L T W) (w : W) : Bool :=
  S.clock w == S.clock s.host ||
    (S.clock s.host < S.clock w && S.clock w ≤ s.bus.settings.horizon &&
      (s.bus.deed? (S.clock s.host)).isNone &&
      s.bus.worker.deadline?.all fun d => S.clock w ≤ d)

/-- The bus and its surroundings after an event. -/
def step (S : Stage L T W) (s : Hosted L T W) : Event L T W → Hosted L T W
  | .use o => { s with bus := s.bus.apply (S.clock s.host) o }
  | .dispatch m => (Bus.dispatch S.call m s).2
  | .work => moveOnce S.call (S.clock s.host) s
  | .around w => if S.allows s w then { s with host := w } else s

/-- The deed of the worker that an event is, if it is one. -/
def deedOf? (S : Stage L T W) (s : Hosted L T W) : Event L T W → Option (Deed L)
  | .work => s.bus.deed? (S.clock s.host)
  | _ => none

/-- What an event can do, `d` being the deed that it is: it uses the bus, or
lets time pass, or is a deed of the worker. -/
inductive Change (S : Stage L T W) (s s' : Hosted L T W) (d : Option (Deed L)) : Prop where
  | used (hd : d = none) (h : Reaches S.clock s s')
  | passed (hd : d = none) (hbus : s'.bus = s.bus) (hlt : S.clock s.host < S.clock s'.host)
      (hrest : s.bus.deed? (S.clock s.host) = none)
      (hdeadline : ∀ t, s.bus.worker.deadline? = some t → S.clock s'.host ≤ t)
      (hwithin : S.clock s'.host ≤ s.bus.settings.horizon)
  | worked {deed : Deed L} (hd : d = some deed) (hclock : S.clock s'.host = S.clock s.host)
      (hworks : Works (S.clock s.host) s.bus deed s'.bus)
      (hfails : ∀ tiers e, deed = .deliver tiers e →
        (s'.bus.worker = .failed ↔ Panics S.call s e))

theorem step_cases (S : Stage L T W) (s : Hosted L T W) (e : Event L T W) :
    S.Change s (S.step s e) (S.deedOf? s e) := by
  cases e with
  | use o => exact .used rfl ⟨rfl, follows_apply _ _ o⟩
  | dispatch m => exact .used rfl (rel_dispatch S.reaches_call m s)
  | work =>
    show S.Change s (moveOnce S.call (S.clock s.host) s) (s.bus.deed? (S.clock s.host))
    rw [moveOnce, move?_eq]
    cases hd : s.bus.deed? (S.clock s.host) with
    | none => exact .used rfl (.refl S.clock s)
    | some d =>
      obtain ⟨hworks, hfails⟩ := S.works_perform hd
      exact .worked rfl (S.clock_perform _ s d) hworks hfails
  | around w =>
    show S.Change s (if S.allows s w then { s with host := w } else s) none
    split
    · rename_i hallows
      simp only [allows, Bool.or_eq_true, Bool.and_eq_true, decide_eq_true_eq, beq_iff_eq,
        Option.isNone_iff_eq_none, Option.all_eq_true] at hallows
      rcases hallows with heq | ⟨⟨⟨hlt, hwithin⟩, hrest⟩, hdeadline⟩
      · exact .used rfl ⟨heq, .refl _ _⟩
      · exact .passed rfl rfl hlt hrest hdeadline hwithin
    · exact .used rfl (.refl S.clock s)

/-- Events leave the settings of the bus. -/
theorem settings_step (S : Stage L T W) (s : Hosted L T W) (e : Event L T W) :
    (S.step s e).bus.settings = s.bus.settings := by
  cases S.step_cases s e with
  | used _ hreaches => exact hreaches.grows.settings_eq
  | passed _ hbus _ _ _ _ => rw [hbus]
  | worked _ _ hworks _ => exact hworks.settings_eq

theorem settings_foldl (S : Stage L T W) (s : Hosted L T W) (es : List (Event L T W)) :
    (es.foldl S.step s).bus.settings = s.bus.settings := by
  induction es generalizing s with
  | nil => rfl
  | cons e rest ih => exact (ih (S.step s e)).trans (S.settings_step s e)

/-- They do not move the clock beyond its horizon. -/
theorem clock_step_le (S : Stage L T W) {s : Hosted L T W} (e : Event L T W)
    (hle : S.clock s.host ≤ s.bus.settings.horizon) :
    S.clock (S.step s e).host ≤ s.bus.settings.horizon := by
  cases S.step_cases s e with
  | used _ hreaches => exact hreaches.clock_eq ▸ hle
  | passed _ _ _ _ _ hwithin => exact hwithin
  | worked _ hclock _ _ => exact hclock ▸ hle

theorem clock_foldl_le (S : Stage L T W) {s : Hosted L T W} (es : List (Event L T W))
    (hle : S.clock s.host ≤ s.bus.settings.horizon) :
    S.clock (es.foldl S.step s).host ≤ (es.foldl S.step s).bus.settings.horizon := by
  induction es generalizing s with
  | nil => exact hle
  | cons e rest ih => exact ih (S.settings_step s e ▸ S.clock_step_le e hle)

end Stage

/-- A history: the stage, how the bus starts, and what happens. -/
structure History (L T W : Type) where
  stage : Stage L T W
  settings : Settings
  host : W
  events : List (Event L T W)
  /-- It starts at a time that the clock can tell. -/
  clock_le : stage.clock host ≤ settings.horizon := by decide

namespace History

variable (h : History L T W)

/-- The bus and its surroundings after the first `n` events. -/
def after (n : Nat) : Hosted L T W :=
  (h.events.take n).foldl h.stage.step ⟨{ settings := h.settings }, h.host⟩

/-- The bus after the first `n` events. -/
def bus (n : Nat) : Bus L T := (h.after n).bus

/-- The time after the first `n` events. -/
def now (n : Nat) : Nat := h.stage.clock (h.after n).host

/-- The deed of the worker that event `n` is, if it is one. -/
def deed? (n : Nat) : Option (Deed L) :=
  (h.events[n]?).bind (h.stage.deedOf? (h.after n))

/-- The message that the worker dispatches by event `n`. -/
def delivery? (n : Nat) : Option (Envelope L) := (h.deed? n).bind Deed.delivery?

/-- The message that the worker loses by event `n`. -/
def loss? (n : Nat) : Option (Envelope L) := (h.deed? n).bind Deed.loss?

/-- The messages for later that the bus has taken by event `n`: those that
stand behind the queue of before. -/
def sent (n : Nat) : List (Envelope L) := (h.bus (n + 1)).queue.drop (h.bus n).queue.length

/-- The messages for later that the bus has taken by the first `n` events, in
the order in which it took them. -/
def accepted : Nat → List (Envelope L)
  | 0 => []
  | n + 1 => accepted n ++ h.sent n

/-- The messages that the worker has dispatched in the first `n` events, each
with the time. -/
def dispatched : Nat → List (Envelope L × Nat)
  | 0 => []
  | n + 1 => dispatched n ++ (h.delivery? n).toList.map fun e => (e, h.now n)

/-- The messages that the worker has lost in the first `n` events. -/
def lost : Nat → List (Envelope L)
  | 0 => []
  | n + 1 => lost n ++ (h.loss? n).toList

/-- The worker is started by event `k`. -/
def StartsAt (k : Nat) : Prop := (h.bus k).worker = .unstarted ∧ (h.bus (k + 1)).worker ≠ .unstarted

/-- Everything has happened that can happen at the current time. -/
def Settled (n : Nat) : Prop := (h.bus n).deed? (h.now n) = none

/-- In the first `n` events, no post action has panicked in a dispatch of
the worker. -/
def Calm (n : Nat) : Prop :=
  ∀ i < n, ∀ e, h.delivery? i = some e → ¬ Panics h.stage.call (h.after i) e

variable {h} {n : Nat}

theorem after_of_event {e : Event L T W} (he : h.events[n]? = some e) :
    h.after (n + 1) = h.stage.step (h.after n) e := by
  unfold after
  rw [List.take_add_one, he, Option.toList_some, List.foldl_append]
  rfl

theorem after_of_end (he : h.events[n]? = none) : h.after (n + 1) = h.after n := by
  unfold after
  rw [List.take_add_one, he, Option.toList_none, List.append_nil]

variable (h n)

/-- What happens between two moments: somebody uses the bus, or time passes,
or the worker does something. -/
inductive Change : Prop where
  | used (hd : h.deed? n = none) (hnow : h.now (n + 1) = h.now n)
      (hgrows : Grows (h.now n) (h.bus n) (h.bus (n + 1)))
  | passed (hd : h.deed? n = none) (hbus : h.bus (n + 1) = h.bus n) (hlt : h.now n < h.now (n + 1))
      (hsettled : h.Settled n)
      (hdeadline : ∀ t, (h.bus n).worker.deadline? = some t → h.now (n + 1) ≤ t)
      (hwithin : h.now (n + 1) ≤ (h.bus n).settings.horizon)
  | worked {d : Deed L} (hd : h.deed? n = some d) (hnow : h.now (n + 1) = h.now n)
      (hworks : Works (h.now n) (h.bus n) d (h.bus (n + 1)))
      (hfails : ∀ tiers e, d = .deliver tiers e →
        ((h.bus (n + 1)).worker = .failed ↔ Panics h.stage.call (h.after n) e))

theorem change : h.Change n := by
  have hcases : h.stage.Change (h.after n) (h.after (n + 1)) (h.deed? n) := by
    unfold deed?
    cases he : h.events[n]? with
    | none =>
      rw [after_of_end he]
      exact .used rfl (.refl _ _)
    | some e =>
      rw [after_of_event he]
      exact h.stage.step_cases (h.after n) e
  cases hcases with
  | used hd hreaches => exact .used hd hreaches.clock_eq hreaches.grows
  | passed hd hbus hlt hrest hdeadline hwithin =>
    exact .passed hd hbus hlt hrest hdeadline hwithin
  | worked hd hclock hworks hfails => exact .worked hd hclock hworks hfails

/-- What holds of a bus, and is kept by operations of the bus and by deeds of the
worker, is kept by every event. -/
theorem kept_succ {motive : Bus L T → Prop} (hn : motive (h.bus n))
    (grows : ∀ b', Grows (h.now n) (h.bus n) b' → motive b')
    (works : ∀ d b', Works (h.now n) (h.bus n) d b' → motive b') : motive (h.bus (n + 1)) := by
  cases h.change n with
  | used _ _ hgrows => exact grows _ hgrows
  | passed _ hbus _ _ _ _ => rwa [hbus]
  | worked _ _ hworks _ => exact works _ _ hworks

variable {h n} in
/-- What a deed of the worker leaves. -/
theorem works_of_deed {d : Deed L} (hd : h.deed? n = some d) :
    h.now (n + 1) = h.now n ∧ Works (h.now n) (h.bus n) d (h.bus (n + 1)) := by
  cases h.change n with
  | used hnone _ _ =>
    rw [hnone] at hd
    cases hd
  | passed hnone _ _ _ _ _ =>
    rw [hnone] at hd
    cases hd
  | worked hsome hnow hworks _ =>
    rw [hsome] at hd
    cases hd
    exact ⟨hnow, hworks⟩

/-- The clock does not go back. -/
theorem now_le_succ : h.now n ≤ h.now (n + 1) := by
  cases h.change n with
  | used _ hnow _ => exact Nat.le_of_eq hnow.symm
  | passed _ _ hlt _ _ _ => exact Nat.le_of_lt hlt
  | worked _ hnow _ _ => exact Nat.le_of_eq hnow.symm

theorem now_mono {i j : Nat} (hij : i ≤ j) : h.now i ≤ h.now j := by
  induction j, hij using Nat.le_induction with
  | base => exact Nat.le_refl _
  | succ j _ ih => exact Nat.le_trans ih (h.now_le_succ j)

/-- The settings of the bus stay. -/
theorem settings_eq : (h.bus n).settings = h.settings :=
  h.stage.settings_foldl _ (h.events.take n)

/-! ### What the worker dispatches -/

variable {h n} in
/-- A deed of the worker is a move that it makes when it is let run. -/
theorem event_of_deed {d : Deed L} (hd : h.deed? n = some d) :
    h.events[n]? = some .work ∧ (h.bus n).deed? (h.now n) = some d := by
  obtain ⟨e, he, hdeed⟩ := Option.bind_eq_some_iff.mp hd
  cases e with
  | work => exact ⟨he, hdeed⟩
  | _ => cases hdeed

variable {h n} in
theorem after_of_work (he : h.events[n]? = some .work) :
    h.after (n + 1) = (((h.bus n).deed? (h.now n)).map
      (perform h.stage.call (h.now n) (h.after n))).getD (h.after n) := by
  rw [after_of_event he]
  show moveOnce h.stage.call (h.now n) (h.after n) = _
  rw [moveOnce, move?_eq]
  rfl

variable {h n} in
theorem after_of_deed {d : Deed L} (hd : h.deed? n = some d) :
    h.after (n + 1) = perform h.stage.call (h.now n) (h.after n) d := by
  obtain ⟨he, hdeed⟩ := event_of_deed hd
  rw [after_of_work he, hdeed]
  rfl

/-- By one event, the worker dispatches or loses the first of the messages that
are pending, or none, and those that are taken come last. -/
theorem takes_succ :
    ∃ rest, (h.bus n).pending = (h.delivery? n).toList ++ ((h.loss? n).toList ++ rest) ∧
      Takes (h.now n) (h.bus n) (h.bus (n + 1)) rest (h.sent n) := by
  suffices ∃ rest sent, (h.bus n).pending
        = (h.delivery? n).toList ++ ((h.loss? n).toList ++ rest) ∧
      Takes (h.now n) (h.bus n) (h.bus (n + 1)) rest sent by
    obtain ⟨rest, sent, hpending, htakes⟩ := this
    have hsent : h.sent n = sent := htakes.drop_queue
    exact ⟨rest, hpending, hsent ▸ htakes⟩
  unfold delivery? loss?
  cases h.change n with
  | used hd _ hgrows =>
    obtain ⟨sent, htakes⟩ := hgrows.takes
    exact ⟨_, sent, by rw [hd]; rfl, htakes⟩
  | passed hd hbus _ _ _ _ =>
    obtain ⟨sent, htakes⟩ := (Grows.refl (h.now n) (h.bus n)).takes
    exact ⟨(h.bus n).pending, sent, by rw [hd]; rfl, by rwa [hbus]⟩
  | worked hd _ hworks _ =>
    rw [hd]
    exact hworks.takes

/-! ### The life of the worker -/

/-- What holds of the worker at first, and is kept by a start and by every
deed, holds of it at every moment. -/
theorem worker_induction {motive : Worker L → Prop} (first : motive .unstarted)
    (spawned : motive .spawned)
    (works : ∀ n d, h.deed? n = some d → Works (h.now n) (h.bus n) d (h.bus (n + 1)) →
      motive (h.bus n).worker → motive (h.bus (n + 1)).worker) : motive (h.bus n).worker := by
  induction n with
  | zero => exact first
  | succ n ih =>
    cases h.change n with
    | used _ _ hgrows =>
      rcases hgrows.worker with hw | ⟨_, hw⟩
      · rwa [hw]
      · rwa [hw]
    | passed _ hbus _ _ _ _ => rwa [hbus]
    | worked hd _ hworks _ => exact works n _ hd hworks ih

/-- Between two events the worker is never in a call. -/
theorem worker_ne_calling : (h.bus n).worker ≠ .calling := by
  refine h.worker_induction n (motive := fun w => w ≠ .calling) (fun heq => nomatch heq)
    (fun heq => nomatch heq) fun _ _ _ hworks _ => hworks.not_calling

/-- A worker that has ended by a panic stays so. It does by a delivery in which a
post action panics, and by the loss of a message. -/
theorem failed_succ_iff : (h.bus (n + 1)).worker = .failed ↔
    (h.bus n).worker = .failed ∨
      (∃ e, h.delivery? n = some e ∧ Panics h.stage.call (h.after n) e) ∨
        ∃ e, h.loss? n = some e := by
  unfold delivery? loss?
  cases h.change n with
  | used hd _ hgrows =>
    -- The worker is as before, or has just been started.
    rcases hgrows.worker with hw | ⟨hw, hw'⟩
    · simp [hd, hw]
    · simp [hd, hw, hw']
  | passed hd hbus _ _ _ _ => simp [hd, hbus]
  | worked hd _ hworks hfails =>
    rw [hd]
    generalize h.bus (n + 1) = b' at hworks hfails
    cases hworks with
    | delivered hw _ _ | failed hw _ _ =>
      -- How a delivery ends depends on the post actions alone.
      rw [hfails _ _ rfl, hw]
      simp [Deed.delivery?, Deed.loss?]
    | began hw | took hw _ _ | lost hw _ _ | polled hw _ _ _ _ | finished hw _ _ =>
      rw [hw]
      simp [Deed.delivery?, Deed.loss?, withWorker]

/-- One more event is calm if it is no delivery with a panic. -/
theorem calm_succ_iff : h.Calm (n + 1) ↔
    h.Calm n ∧ ∀ e, h.delivery? n = some e → ¬ Panics h.stage.call (h.after n) e := by
  constructor
  · exact fun hcalm => ⟨fun i hi => hcalm i (Nat.lt_succ_of_lt hi), hcalm n (Nat.lt_succ_self n)⟩
  · rintro ⟨hcalm, hlast⟩ i hi
    rcases Nat.lt_succ_iff_lt_or_eq.mp hi with hi | rfl
    · exact hcalm i hi
    · exact hlast

theorem lost_succ_eq_nil_iff : h.lost (n + 1) = [] ↔ h.lost n = [] ∧ h.loss? n = none := by
  rw [lost, List.append_eq_nil_iff, Option.toList_eq_nil_iff]

/-- The worker ends by a panic if and only if a post action has panicked in one
of its dispatches, or it has lost a message. -/
theorem failed_iff : (h.bus n).worker = .failed ↔ ¬ (h.Calm n ∧ h.lost n = []) := by
  induction n with
  | zero =>
    have hcalm : h.Calm 0 := fun i hi => absurd hi (Nat.not_lt_zero i)
    exact ⟨fun heq => (nomatch heq), fun hnot => absurd ⟨hcalm, rfl⟩ hnot⟩
  | succ n ih =>
    have hloss : (∃ e, h.loss? n = some e) ↔ ¬ h.loss? n = none :=
      Option.isSome_iff_exists.symm.trans Option.isSome_iff_ne_none
    rw [failed_succ_iff, ih, calm_succ_iff, lost_succ_eq_nil_iff, hloss]
    grind

/-- A worker that has not ended by a panic has lost nothing. -/
theorem calm_of_worker (hw : (h.bus n).worker ≠ .failed) : h.Calm n ∧ h.lost n = [] :=
  not_not.mp (mt (h.failed_iff n).mpr hw)

/-- A worker that does something has lost nothing yet. -/
theorem lost_eq_nil_of_deed {d : Deed L} (hd : h.deed? n = some d) : h.lost n = [] := by
  refine (h.calm_of_worker n fun hfailed => ?_).2
  have hrunning := (works_of_deed hd).2.isRunning
  rw [hfailed] at hrunning
  cases hrunning

/-- What has been accepted has been dispatched or lost, or is pending, in this
order. -/
theorem accepted_eq :
    h.accepted n = (h.dispatched n).map Prod.fst ++ (h.lost n ++ (h.bus n).pending) := by
  induction n with
  | zero => rfl
  | succ n ih =>
    obtain ⟨rest, hpending, htakes⟩ := h.takes_succ n
    have hlog : ((h.delivery? n).toList.map fun e => (e, h.now n)).map Prod.fst
        = (h.delivery? n).toList := by
      rw [List.map_map]
      exact List.map_id' _
    -- After a loss there is no delivery.
    have hcomm : h.lost n ++ (h.delivery? n).toList = (h.delivery? n).toList ++ h.lost n := by
      cases hd : h.deed? n with
      | none =>
        rw [delivery?, hd]
        exact List.append_nil _
      | some d => rw [h.lost_eq_nil_of_deed n hd, List.nil_append, List.append_nil]
    rw [accepted, dispatched, lost, ih, hpending, htakes.pending_eq, List.map_append, hlog]
    simp only [List.append_assoc]
    rw [← List.append_assoc (h.lost n), hcomm]
    simp only [List.append_assoc]

/-- The bus counts the dispatches of its worker, but for one that ends by a
panic. -/
theorem delivered_add :
    ∃ uncounted, (h.bus n).delivered + uncounted = (h.dispatched n).length ∧
      (uncounted = 0 ↔ h.Calm n) := by
  induction n with
  | zero => exact ⟨0, rfl, fun _ i hi => absurd hi (Nat.not_lt_zero i), fun _ => rfl⟩
  | succ n ih =>
    obtain ⟨uncounted, hcount, hiff⟩ := ih
    rw [calm_succ_iff, dispatched, List.length_append, List.length_map, ← hcount]
    -- Without a delivery nothing changes.
    have hstays : h.delivery? n = none → (h.bus (n + 1)).delivered = (h.bus n).delivered →
        ∃ uncounted', (h.bus (n + 1)).delivered + uncounted'
            = (h.bus n).delivered + uncounted + (h.delivery? n).toList.length ∧
          (uncounted' = 0 ↔ h.Calm n ∧
            ∀ e, h.delivery? n = some e → ¬ Panics h.stage.call (h.after n) e) := by
      intro hnone hdelivered
      refine ⟨uncounted, by rw [hnone, hdelivered]; rfl, ?_⟩
      simp [hnone, hiff]
    cases h.change n with
    | used hd _ hgrows => exact hstays (by rw [delivery?, hd]; rfl) hgrows.delivered_eq
    | passed hd hbus _ _ _ _ => exact hstays (by rw [delivery?, hd]; rfl) (by rw [hbus])
    | @worked d hd _ hworks hfails =>
      have hdelivery : h.delivery? n = d.delivery? := by rw [delivery?, hd]; rfl
      generalize h.bus (n + 1) = b' at hstays hworks hfails
      cases hworks with
      | @delivered tiers e b₁ hw _ _ =>
        -- The message is counted.
        have hno : ¬ Panics h.stage.call (h.after n) e := fun hpanics =>
          nomatch (hfails tiers e rfl).mpr hpanics
        refine ⟨uncounted, ?_, ?_⟩
        · rw [hdelivery]
          show (h.bus n).delivered + 1 + uncounted = (h.bus n).delivered + uncounted + 1
          omega
        · simp [hdelivery, Deed.delivery?, hiff, hno]
      | @failed tiers e b₁ hw _ hgrows =>
        -- The message is not counted, but all others are.
        have hpanics : Panics h.stage.call (h.after n) e := (hfails tiers e rfl).mp rfl
        have hbefore : uncounted = 0 := hiff.mpr
          (h.calm_of_worker n (by rw [hw]; exact fun heq => nomatch heq)).1
        refine ⟨1, ?_, ?_⟩
        · rw [hdelivery, hbefore]
          show b₁.delivered + 1 = (h.bus n).delivered + 0 + 1
          rw [hgrows.delivered_eq]
          rfl
        · simp [hdelivery, Deed.delivery?, hpanics]
      | polled _ _ _ _ hgrows => exact hstays (by rw [hdelivery]; rfl) hgrows.delivered_eq
      | began | took | lost | finished => exact hstays (by rw [hdelivery]; rfl) rfl

/-- Dispatches are counted as long as no post action panics. -/
theorem delivered_eq (hcalm : h.Calm n) : (h.bus n).delivered = (h.dispatched n).length := by
  obtain ⟨uncounted, hcount, hiff⟩ := h.delivered_add n
  rw [← hcount, hiff.mpr hcalm]
  rfl

/-- At most one message is lost. -/
theorem lost_cases : h.lost n = [] ∨ ∃ e, h.lost n = [e] := by
  induction n with
  | zero => exact .inl rfl
  | succ n ih =>
    rw [lost]
    cases hloss : h.loss? n with
    | none => simpa using ih
    | some e =>
      obtain ⟨d, hd, _⟩ := Option.bind_eq_some_iff.mp hloss
      rw [h.lost_eq_nil_of_deed n hd]
      exact .inr ⟨e, rfl⟩

/-! ### The clock -/

/-- The clock does not pass its horizon. -/
theorem now_le_horizon : h.now n ≤ h.settings.horizon := by
  rw [← h.settings_eq n]
  exact h.stage.clock_foldl_le (h.events.take n) h.clock_le

/-- A message that is lost is due after the horizon. -/
theorem horizon_lt_of_mem_lost {e : Envelope L} (he : e ∈ h.lost n) :
    h.settings.horizon < e.due := by
  induction n with
  | zero => cases he
  | succ n ih =>
    rcases List.mem_append.mp he with he | he
    · exact ih he
    · obtain ⟨d, hd, hloss⟩ := Option.bind_eq_some_iff.mp (Option.mem_toList.mp he)
      have hworks := (works_of_deed hd).2
      rw [← h.settings_eq n]
      generalize h.bus (n + 1) = b' at hworks
      cases hworks with
      | lost _ _ hbeyond =>
        cases hloss
        exact hbeyond
      | began | took | delivered | failed | polled | finished => cases hloss

/-! ### The end of the worker -/

/-- A closed bus stays closed. -/
theorem closed_succ (hclosed : (h.bus n).isOpen = false) : (h.bus (n + 1)).isOpen = false :=
  h.kept_succ n (motive := fun b => b.isOpen = false) hclosed
    (fun _ hgrows => hgrows.closed hclosed) fun _ _ hworks => hworks.closed hclosed

theorem closed_mono {i j : Nat} (hij : i ≤ j) (hclosed : (h.bus i).isOpen = false) :
    (h.bus j).isOpen = false := by
  induction j, hij using Nat.le_induction with
  | base => exact hclosed
  | succ j _ ih => exact h.closed_succ j ih

/-- A worker that has ended has left nothing in the queue, which is closed. -/
theorem queue_of_finished (hw : (h.bus n).worker = .finished) :
    (h.bus n).isOpen = false ∧ (h.bus n).queue = [] := by
  induction n with
  | zero => cases hw
  | succ n ih =>
    cases h.change n with
    | used _ _ hgrows =>
      have hbefore : (h.bus n).worker = .finished := by
        rcases hgrows.worker with heq | ⟨_, heq⟩
        · exact heq ▸ hw
        · rw [heq] at hw
          cases hw
      -- A closed bus takes no message, so its queue stays empty.
      obtain ⟨hclosed, hqueue⟩ := ih hbefore
      obtain ⟨sent, hsent, _, hrefused⟩ := hgrows.queue
      refine ⟨hgrows.closed hclosed, ?_⟩
      rw [hsent, hqueue, hrefused (.inl hclosed)]
      rfl
    | passed _ hbus _ _ _ _ =>
      rw [hbus] at hw ⊢
      exact ih hw
    | worked _ _ hworks _ =>
      generalize h.bus (n + 1) = b' at hworks hw
      cases hworks with
      | finished _ hq hclosed => exact ⟨hclosed, hq⟩
      | began | took | lost | delivered | failed | polled => cases hw

/-- A worker that has been started stays so. -/
theorem started_succ (hw : (h.bus n).worker ≠ .unstarted) :
    (h.bus (n + 1)).worker ≠ .unstarted :=
  h.kept_succ n (motive := fun b => b.worker ≠ .unstarted) hw
    (fun _ hgrows => hgrows.worker_eq hw ▸ hw) fun _ _ hworks => hworks.started.2

theorem started_mono {i j : Nat} (hij : i ≤ j) (hw : (h.bus i).worker ≠ .unstarted) :
    (h.bus j).worker ≠ .unstarted := by
  induction j, hij using Nat.le_induction with
  | base => exact hw
  | succ j _ ih => exact h.started_succ j ih

variable {h n} {k : Nat}

theorem StartsAt.started (hstart : h.StartsAt k) (hkn : k < n) : (h.bus n).worker ≠ .unstarted :=
  h.started_mono hkn hstart.2

/-- Up to its start the worker does nothing. -/
theorem StartsAt.deed?_eq_none (hstart : h.StartsAt k) (hnk : n ≤ k) : h.deed? n = none := by
  cases hd : h.deed? n with
  | none => rfl
  | some d => exact absurd hstart.1 (h.started_mono hnk (works_of_deed hd).2.started.1)

theorem StartsAt.lt_of_deed (hstart : h.StartsAt k) {d : Deed L} (hd : h.deed? n = some d) :
    k < n := by
  refine Nat.lt_of_not_le fun hnk => ?_
  rw [hstart.deed?_eq_none hnk] at hd
  cases hd

/-- A message is dispatched when it is due, by a worker that holds it. -/
theorem due_of_delivery {e : Envelope L} (he : h.delivery? n = some e) :
    e.due ≤ h.now n ∧ h.now (n + 1) = h.now n ∧ (h.bus n).worker ≠ .failed := by
  obtain ⟨d, hd, hde⟩ := Option.bind_eq_some_iff.mp he
  obtain ⟨hnow, hworks⟩ := works_of_deed hd
  generalize h.bus (n + 1) = b' at hworks
  cases hworks with
  | delivered hw hdue _ | failed hw hdue _ =>
    cases hde
    exact ⟨hdue, hnow, hw ▸ fun heq => nomatch heq⟩
  | began | took | lost | polled | finished => cases hde

/-- At a settled moment, a worker that was started and is not lost either has
dispatched all there is, or holds a message that is not due yet. -/
theorem Settled.cases (hsettled : h.Settled n) (hw : (h.bus n).worker ≠ .unstarted)
    (hcalm : (h.bus n).worker ≠ .failed) :
    (h.bus n).pending = [] ∨
      ∃ tiers e, (h.bus n).worker = .holding tiers e ∧ h.now n < e.due := by
  have hcalling := h.worker_ne_calling n
  have hfinished := h.queue_of_finished n
  unfold Settled Bus.deed? at hsettled
  unfold pending
  generalize (h.bus n).worker = w at hsettled hw hcalm hcalling hfinished
  cases w with
  | unstarted => exact absurd rfl hw
  | spawned => cases hsettled
  | waiting tiers deadline =>
    -- If there were a message in the queue, the worker would take it.
    cases hq : (h.bus n).queue with
    | nil => exact .inl rfl
    | cons e rest =>
      rw [hq] at hsettled
      cases hsettled
  | holding tiers e =>
    refine .inr ⟨tiers, e, rfl, Nat.lt_of_not_le fun hdue => ?_⟩
    simp only [if_pos hdue] at hsettled
    cases hsettled
  | calling => exact absurd rfl hcalling
  | finished =>
    rw [(hfinished rfl).2]
    exact .inl rfl
  | failed => exact absurd rfl hcalm

/-- The clock stands still while the worker is started. -/
theorem StartsAt.cases (hstart : h.StartsAt k) :
    (h.bus (k + 1)).worker = .spawned ∧ h.now (k + 1) = h.now k := by
  obtain ⟨hw, hstarted⟩ := hstart
  cases h.change k with
  | used _ hnow hgrows =>
    exact ⟨(hgrows.worker.resolve_left fun heq => hstarted (heq.trans hw)).2, hnow⟩
  | passed _ hbus _ _ _ _ => exact absurd (hbus ▸ hw) hstarted
  | worked _ _ hworks _ => exact absurd hw hworks.started.1

/-- Until the worker has run for the first time, no time passes after its
start. -/
theorem StartsAt.of_spawned (hstart : h.StartsAt k) (hkn : k < n)
    (hw : (h.bus n).worker = .spawned) : h.now n = h.now k ∧ ∀ j < n, h.deed? j = none := by
  induction n, Nat.succ_le_of_lt hkn using Nat.le_induction with
  | base => exact ⟨hstart.cases.2, fun j hj => hstart.deed?_eq_none (Nat.le_of_lt_succ hj)⟩
  | succ n hle ih =>
    cases h.change n with
    | used hd hnow hgrows =>
      rw [hgrows.worker_eq (hstart.started hle)] at hw
      obtain ⟨hnow', hnone⟩ := ih hle hw
      refine ⟨hnow.trans hnow', fun j hj => ?_⟩
      rcases Nat.lt_succ_iff_lt_or_eq.mp hj with hj | rfl
      · exact hnone j hj
      · exact hd
    | passed _ hbus _ hsettled _ _ =>
      -- A worker that has just been started has something to do.
      rw [hbus] at hw
      unfold Settled Bus.deed? at hsettled
      rw [hw] at hsettled
      cases hsettled
    | worked _ _ hworks _ =>
      generalize h.bus (n + 1) = b' at hworks hw
      cases hworks <;> cases hw

end History

end Backplane.Bus
