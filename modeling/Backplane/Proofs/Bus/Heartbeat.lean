import Backplane.Proofs.Bus.History
import Mathlib.Algebra.Order.Floor.Div
import Mathlib.Data.List.Basic
import Mathlib.Tactic.Ring

/-!
# `Backplane.Proofs.Bus.Heartbeat`: when the idle tiers fire

The worker of a bus waits for a message for the time of one idle poll. If
none comes, it looks at the idle tiers, and those fire whose periods have
passed since they fired last. So a tier does not fire when its period ends,
but at the next look, and a message puts the looks off. The main
statements:

* `waited`: a worker that waits has done nothing since the end of its last
  round, and waits for one idle poll from there.
* `stamped_eq`: each tier that the worker keeps has the time at which it
  fired last.
* `quiet`: in a history without messages, looks come at multiples of the
  idle poll from the start on.
* `heartbeat_on_time`: when the worker looks at the tiers and which of them
  fire, how far apart they do, and at what times if no message comes.
-/

set_option autoImplicit false

namespace Backplane.Bus

variable {L T W : Type}

/-- Whether the worker waits for a message after a deed. -/
def Deed.endsRound : Deed L → Bool
  | .begin | .deliver _ _ | .poll _ => true
  | .take _ _ | .lose _ | .finish => false

/-- The tiers that a deed looks at. -/
def Deed.polled? : Deed L → Option (List Tier)
  | .poll tiers => some tiers
  | _ => none

/-- The tiers that a worker keeps. -/
def Worker.tiers? : Worker L → Option (List Tier)
  | .waiting tiers _ | .holding tiers _ => some tiers
  | _ => none

namespace History

variable (h : History L T W) (start i n : Nat)

/-- How long the worker waits for a message. -/
def idleWait : Nat := max h.settings.idlePoll 10

/-- The tiers at which the worker looks by event `n`, if it does. -/
def polled? : Option (List Tier) := (h.deed? n).bind Deed.polled?

/-- Whether tier `i` fires by event `n`. -/
def fires : Bool := ((h.polled? n).bind fun tiers => tiers[i]?).any fun t => t.isDue (h.now n)

/-- The times at which tier `i` has fired in the first `n` events. -/
def firings : List Nat := ((List.range n).filter (h.fires i)).map h.now

/-- The time at which tier `i` has fired last in the first `n` events, or else
the start. -/
def lastFiring : Nat := (h.firings i n).getLast?.getD start

/-- How often the worker has looked at the tiers in the first `n` events. -/
def polls : Nat := (List.range n).countP fun j => (h.polled? j).isSome

/-- The messages of the tiers whose periods have passed since they fired
last. -/
def dueTiers : List MessageId :=
  (h.settings.tiers.zipIdx.filter fun p =>
    p.1.2 ≤ h.now n - h.lastFiring start p.2 n).map fun p => p.1.1

/-- The worker has done nothing between the end of a round, which is event
`r`, and event `n`. -/
structure IdleSince (r n : Nat) : Prop where
  lt : r < n
  ends : (h.deed? r).any Deed.endsRound = true
  rests : ∀ j, r < j → j < n → h.deed? j = none

/-! ### Looks at the tiers -/

variable {h start i n} {tiers : List Tier} {k : Nat}

theorem polled?_of_deed {d : Option (Deed L)} (hd : h.deed? n = d) :
    h.polled? n = d.bind Deed.polled? := by
  rw [polled?, hd]

theorem deed?_of_polled (hp : h.polled? n = some tiers) : h.deed? n = some (.poll tiers) := by
  obtain ⟨d, hd, hdp⟩ := Option.bind_eq_some_iff.mp hp
  cases d with
  | poll tiers' =>
    cases hdp
    exact hd
  | _ => cases hdp

/-- A worker that waits has done nothing since the end of its last round, and
its wait is one idle poll long. -/
theorem waited {deadline : Nat} (hw : (h.bus n).worker = .waiting tiers deadline) :
    h.now n ≤ deadline ∧ ∃ r, h.IdleSince r n ∧ deadline = h.now r + h.idleWait := by
  induction n generalizing tiers deadline with
  | zero => cases hw
  | succ n ih =>
    -- The wait goes on.
    have hgoes : (h.bus n).worker = .waiting tiers deadline → h.deed? n = none →
        ∃ r, h.IdleSince r (n + 1) ∧ deadline = h.now r + h.idleWait := by
      intro hbefore hd
      obtain ⟨_, r, hidle, hdeadline⟩ := ih hbefore
      refine ⟨r, ⟨Nat.lt_succ_of_lt hidle.lt, hidle.ends, fun j hrj hj => ?_⟩, hdeadline⟩
      rcases Nat.lt_succ_iff_lt_or_eq.mp hj with hj | rfl
      · exact hidle.rests j hrj hj
      · exact hd
    -- The wait begins.
    have hbegins : ∀ {d : Deed L}, h.deed? n = some d → d.endsRound = true →
        h.now (n + 1) = h.now n →
        deadline = h.now n + (h.bus n).settings.effectiveIdlePoll →
        h.now (n + 1) ≤ deadline ∧
          ∃ r, h.IdleSince r (n + 1) ∧ deadline = h.now r + h.idleWait := by
      intro d hd hround hnow hdeadline
      rw [h.settings_eq n] at hdeadline
      refine ⟨by omega, n, ⟨Nat.lt_succ_self n, by rw [hd]; exact hround, fun j hj hj' => ?_⟩,
        hdeadline⟩
      exact absurd hj (Nat.not_lt_of_le (Nat.le_of_lt_succ hj'))
    cases h.change n with
    | used hd hnow hgrows =>
      have hbefore : (h.bus n).worker = .waiting tiers deadline := by
        rcases hgrows.worker with heq | ⟨_, heq⟩
        · exact heq ▸ hw
        · rw [heq] at hw
          cases hw
      exact ⟨hnow ▸ (ih hbefore).1, hgoes hbefore hd⟩
    | passed hd hbus _ _ hdeadline _ =>
      rw [hbus] at hw
      exact ⟨hdeadline deadline (by rw [hw]; rfl), hgoes hw hd⟩
    | worked hd hnow hworks _ =>
      generalize h.bus (n + 1) = b' at hworks hw
      cases hworks with
      | began | delivered | polled =>
        cases hw
        exact hbegins hd rfl hnow rfl
      | took | lost | failed | finished => cases hw

/-- The worker looks at the tiers when its wait is over. -/
theorem waited_of_polled (hp : h.polled? n = some tiers) :
    ∃ r, h.IdleSince r n ∧ h.now n = h.now r + h.idleWait := by
  obtain ⟨_, hworks⟩ := works_of_deed (deed?_of_polled hp)
  generalize h.bus (n + 1) = b' at hworks
  cases hworks with
  | polled hw _ _ hdeadline _ =>
    obtain ⟨hle, r, hidle, heq⟩ := waited hw
    exact ⟨r, hidle, by omega⟩

/-! ### What has fired -/

theorem fires_of_none (hp : h.polled? n = none) (i : Nat) : h.fires i n = false := by
  unfold fires
  rw [hp]
  rfl

theorem firings_succ : h.firings i (n + 1)
    = h.firings i n ++ if h.fires i n then [h.now n] else [] := by
  unfold firings
  rw [List.range_succ, List.filter_append, List.map_append, List.filter_singleton]
  cases h.fires i n <;> rfl

theorem mem_firings {a : Nat} :
    a ∈ h.firings i n ↔ ∃ j < n, h.fires i j = true ∧ h.now j = a := by
  unfold firings
  simp [and_assoc]

theorem lastFiring_succ : h.lastFiring start i (n + 1)
    = if h.fires i n then h.now n else h.lastFiring start i n := by
  unfold lastFiring
  rw [firings_succ]
  cases h.fires i n <;> simp

/-- A tier fires only by a look at the tiers. -/
theorem polled_of_fires (hf : h.fires i n = true) : ∃ tiers, h.polled? n = some tiers := by
  cases hp : h.polled? n with
  | none =>
    rw [fires_of_none hp] at hf
    cases hf
  | some tiers => exact ⟨tiers, rfl⟩

theorem firings_eq_nil (hnone : ∀ j < n, h.deed? j = none) (i : Nat) : h.firings i n = [] := by
  refine List.eq_nil_iff_forall_not_mem.mpr fun a ha => ?_
  obtain ⟨j, hj, hf, _⟩ := mem_firings.mp ha
  obtain ⟨tiers, hp⟩ := polled_of_fires hf
  have hdeed := deed?_of_polled hp
  rw [hnone j hj] at hdeed
  cases hdeed

/-- The last firing is not before any other, nor before the start. -/
theorem le_lastFiring (hstart : h.StartsAt k) {a : Nat} (ha : a ∈ h.now k :: h.firings i n) :
    a ≤ h.lastFiring (h.now k) i n := by
  induction n with
  | zero => exact Nat.le_of_eq (List.mem_singleton.mp ha)
  | succ n ih =>
    rw [lastFiring_succ]
    split
    · rename_i hf
      obtain ⟨tiers, hp⟩ := polled_of_fires hf
      rcases List.mem_cons.mp ha with rfl | ha
      · exact h.now_mono (Nat.le_of_lt (hstart.lt_of_deed (deed?_of_polled hp)))
      · obtain ⟨j, hj, _, rfl⟩ := mem_firings.mp ha
        exact h.now_mono (Nat.le_of_lt_succ hj)
    · rename_i hf
      rw [firings_succ, if_neg hf, List.append_nil] at ha
      exact ih ha

/-- Rounds end after the start. -/
theorem IdleSince.lt_start {r : Nat} (hidle : h.IdleSince r n) (hstart : h.StartsAt k) : k < r := by
  obtain ⟨d, hd, _⟩ := (Option.any_eq_true _ _).mp hidle.ends
  exact hstart.lt_of_deed hd

/-- A firing is at least one wait before the next look at the tiers. -/
theorem add_idleWait_le (hstart : h.StartsAt k) (hp : h.polled? n = some tiers) {a : Nat}
    (ha : a ∈ h.now k :: h.firings i n) : a + h.idleWait ≤ h.now n := by
  obtain ⟨r, hidle, hnow⟩ := waited_of_polled hp
  -- The firing was not after the end of the last round.
  have hr : a ≤ h.now r := by
    rcases List.mem_cons.mp ha with rfl | ha
    · exact h.now_mono (Nat.le_of_lt (hidle.lt_start hstart))
    · obtain ⟨j, hj, hf, rfl⟩ := mem_firings.mp ha
      obtain ⟨_, hpj⟩ := polled_of_fires hf
      refine h.now_mono (Nat.le_of_not_lt fun hrj => ?_)
      have hdeed := deed?_of_polled hpj
      rw [hidle.rests j hrj hj] at hdeed
      cases hdeed
  omega

/-! ### The tiers that the worker keeps -/

/-- The tiers of the settings, each with the time at which it fired last. -/
def stamped (h : History L T W) (start n : Nat) : List Tier :=
  h.settings.tiers.mapIdx fun i p => ⟨p.1, p.2, h.lastFiring start i n⟩

theorem stamped_of_none (hp : h.polled? n = none) :
    h.stamped start (n + 1) = h.stamped start n := by
  unfold stamped
  congr 1
  funext i p
  rw [lastFiring_succ, fires_of_none hp]
  rfl

/-- At a look at stamped tiers, those fire whose periods have passed. -/
theorem fires_eq (hp : h.polled? n = some (h.stamped start n)) {id : MessageId} {period : Nat}
    (hi : h.settings.tiers[i]? = some (id, period)) :
    h.fires i n = decide (period ≤ h.now n - h.lastFiring start i n) := by
  unfold fires
  rw [hp, Option.bind_some]
  unfold stamped
  rw [List.getElem?_mapIdx, hi]
  rfl

theorem fired_stamped : Tier.fired (h.stamped start n) (h.now n) = h.dueTiers start n := by
  unfold Tier.fired stamped dueTiers
  rw [List.mapIdx_eq_zipIdx_map, List.filter_map, List.map_map]
  rfl

/-- A look at stamped tiers leaves stamped tiers. -/
theorem stamped_succ (hp : h.polled? n = some (h.stamped start n)) :
    h.stamped start (n + 1) = (h.stamped start n).map fun t => t.poll (h.now n) := by
  refine List.ext_getElem? fun i => ?_
  unfold stamped
  rw [List.getElem?_map, List.getElem?_mapIdx, List.getElem?_mapIdx]
  cases hi : h.settings.tiers[i]? with
  | none => rfl
  | some p =>
    show some _ = some _
    rw [lastFiring_succ, fires_eq hp hi]
    unfold Tier.poll Tier.isDue
    simp only [decide_eq_true_eq]
    split <;> rfl

/-- Before the first deed, the stamps are those of fresh tiers. -/
theorem stamped_eq_fresh (hnone : ∀ j < n, h.deed? j = none) (start : Nat) :
    h.stamped start n = freshTiers (h.bus n) start := by
  have hlast : ∀ i, h.lastFiring start i n = start := fun i => by
    unfold lastFiring
    rw [firings_eq_nil hnone]
    rfl
  unfold stamped freshTiers
  rw [h.settings_eq n]
  simp only [hlast]
  exact List.ext_getElem (by simp) fun i _ _ => by simp

/-- The worker keeps the tiers of the settings with their stamps. -/
theorem stamped_eq (hstart : h.StartsAt k) (hkn : k < n)
    (htiers : (h.bus n).worker.tiers? = some tiers) : tiers = h.stamped (h.now k) n := by
  induction n, Nat.succ_le_of_lt hkn using Nat.le_induction generalizing tiers with
  | base =>
    rw [hstart.cases.1] at htiers
    cases htiers
  | succ n hle ih =>
    cases h.change n with
    | used hd _ hgrows =>
      rw [hgrows.worker_eq (hstart.started hle)] at htiers
      rw [stamped_of_none (polled?_of_deed hd)]
      exact ih hle htiers
    | passed hd hbus _ _ _ _ =>
      rw [hbus] at htiers
      rw [stamped_of_none (polled?_of_deed hd)]
      exact ih hle htiers
    | worked hd _ hworks _ =>
      generalize h.bus (n + 1) = b' at hworks htiers
      cases hworks with
      | began hw =>
        -- Fresh tiers have the time of the start, and no tier has fired.
        obtain ⟨hnow, hnone⟩ := hstart.of_spawned hle hw
        cases htiers
        rw [stamped_of_none (polled?_of_deed hd), stamped_eq_fresh hnone, hnow]
      | took hw _ _ | delivered hw _ _ =>
        cases htiers
        rw [stamped_of_none (polled?_of_deed hd)]
        exact ih hle (by rw [hw]; rfl)
      | lost | failed | finished => cases htiers
      | polled hw _ _ _ _ =>
        cases htiers
        have hbefore := ih hle (by rw [hw]; rfl)
        rw [hbefore] at hd ⊢
        exact (stamped_succ (polled?_of_deed hd)).symm

/-- The worker begins its first round at the start. -/
theorem now_of_begin (hstart : h.StartsAt k) (hd : h.deed? n = some .begin) :
    h.now n = h.now k := by
  obtain ⟨_, hworks⟩ := works_of_deed hd
  generalize h.bus (n + 1) = b' at hworks
  cases hworks with
  | began hw => exact (hstart.of_spawned (hstart.lt_of_deed hd) hw).1

/-- At each look, the worker looks at the tiers of the settings. -/
theorem polled?_eq (hstart : h.StartsAt k) (hp : h.polled? n = some tiers) :
    tiers = h.stamped (h.now k) n := by
  obtain ⟨_, hworks⟩ := works_of_deed (deed?_of_polled hp)
  generalize h.bus (n + 1) = b' at hworks
  cases hworks with
  | polled hw _ _ _ _ =>
    exact stamped_eq hstart (hstart.lt_of_deed (deed?_of_polled hp)) (by rw [hw]; rfl)

/-- Firings of one tier are as far apart as its period and the waits of the
worker want. -/
theorem firings_pairwise (hstart : h.StartsAt k) (n : Nat) {id : MessageId} {period : Nat}
    (hi : h.settings.tiers[i]? = some (id, period)) :
    (h.now k :: h.firings i n).Pairwise fun a b => a + max period h.idleWait ≤ b := by
  induction n with
  | zero => exact List.pairwise_singleton _ _
  | succ n ih =>
    rw [firings_succ]
    split
    · rename_i hf
      obtain ⟨tiers, hp⟩ := polled_of_fires hf
      have hperiod := hf
      rw [fires_eq (polled?_eq hstart hp ▸ hp) hi, decide_eq_true_eq] at hperiod
      rw [← List.cons_append, List.pairwise_append]
      refine ⟨ih, List.pairwise_singleton _ _, fun a ha b hb => ?_⟩
      rw [List.mem_singleton.mp hb]
      have hlast := le_lastFiring hstart ha
      have hwait := add_idleWait_le hstart hp ha
      omega
    · rw [List.append_nil]
      exact ih

/-! ### Histories without messages -/

/-- How many waits it takes until a period has passed, if a look comes after
each of them. -/
def looks (h : History L T W) (period : Nat) : Nat := max 1 (period ⌈/⌉ h.idleWait)

theorem idleWait_pos (h : History L T W) : 0 < h.idleWait :=
  Nat.lt_of_lt_of_le (by decide : 0 < 10) (Nat.le_max_right _ _)

theorem polls_succ :
    h.polls (n + 1) = h.polls n + if (h.polled? n).isSome then 1 else 0 := by
  unfold polls
  rw [List.range_succ, List.countP_append, List.countP_singleton]

theorem polls_succ_of_none (hp : h.polled? n = none) : h.polls (n + 1) = h.polls n := by
  rw [polls_succ, hp]
  rfl

theorem polls_eq_zero (hnone : ∀ j < n, h.deed? j = none) : h.polls n = 0 := by
  refine List.countP_eq_zero.mpr fun j hj => ?_
  unfold polled?
  rw [hnone j (List.mem_range.mp hj)]
  exact Bool.false_ne_true

theorem pending_of_accepted (hnone : h.accepted n = []) : (h.bus n).pending = [] := by
  rw [h.accepted_eq, List.append_eq_nil_iff, List.append_eq_nil_iff] at hnone
  exact hnone.2.2

/-- The worker ends by a panic only if a message has come. -/
theorem worker_ne_failed (hnone : h.accepted n = []) : (h.bus n).worker ≠ .failed := by
  rw [h.accepted_eq, List.append_eq_nil_iff, List.append_eq_nil_iff,
    List.map_eq_nil_iff] at hnone
  obtain ⟨hdispatched, hlost, _⟩ := hnone
  obtain ⟨uncounted, hcount, hiff⟩ := h.delivered_add n
  rw [hdispatched, List.length_nil] at hcount
  intro hfailed
  exact (h.failed_iff n).mp hfailed ⟨hiff.mp (by omega), hlost⟩

/-- While no message comes, the worker looks at the tiers at multiples of its
wait. -/
theorem quiet (hstart : h.StartsAt k) (hkn : k < n) (hnone : h.accepted n = []) :
    (∀ tiers deadline, (h.bus n).worker = .waiting tiers deadline →
      deadline = h.now k + (h.polls n + 1) * h.idleWait) ∧
    h.now k + h.polls n * h.idleWait ≤ h.now n := by
  induction n, Nat.succ_le_of_lt hkn using Nat.le_induction with
  | base =>
    obtain ⟨hw, hnow⟩ := hstart.cases
    rw [Nat.succ_eq_add_one] at hnone ⊢
    refine ⟨fun tiers deadline hwaiting => ?_, ?_⟩
    · rw [hw] at hwaiting
      cases hwaiting
    · rw [polls_eq_zero fun j hj => hstart.deed?_eq_none (Nat.le_of_lt_succ hj), hnow]
      omega
  | succ n hle ih =>
    obtain ⟨hdeadline, hpassed⟩ := ih hle (List.append_eq_nil_iff.mp hnone).1
    have hpending := pending_of_accepted (List.append_eq_nil_iff.mp hnone).1
    cases h.change n with
    | used hd hnow hgrows =>
      refine ⟨?_, ?_⟩
      · rw [hgrows.worker_eq (hstart.started hle), polls_succ_of_none (polled?_of_deed hd)]
        exact hdeadline
      · rw [polls_succ_of_none (polled?_of_deed hd), hnow]
        exact hpassed
    | passed hd hbus hlt _ _ _ =>
      refine ⟨?_, ?_⟩
      · rw [hbus, polls_succ_of_none (polled?_of_deed hd)]
        exact hdeadline
      · rw [polls_succ_of_none (polled?_of_deed hd)]
        exact Nat.le_trans hpassed (Nat.le_of_lt hlt)
    | worked hd hnow hworks _ =>
      rw [hnow]
      generalize h.bus (n + 1) = b' at hworks
      unfold pending at hpending
      cases hworks with
      | began hw =>
        obtain ⟨hnow', hnone'⟩ := hstart.of_spawned hle hw
        rw [polls_succ_of_none (polled?_of_deed hd)]
        refine ⟨fun tiers deadline hwaiting => ?_, hpassed⟩
        cases hwaiting
        rw [h.settings_eq n, polls_eq_zero hnone', hnow', Nat.zero_add, Nat.one_mul]
        rfl
      -- There is no message to take or to deliver.
      | took _ hq _ | lost _ hq _ =>
        rw [hq] at hpending
        cases (List.append_eq_nil_iff.mp hpending).2
      | delivered hw _ _ | failed hw _ _ =>
        rw [hw] at hpending
        cases hpending
      | @polled tiers deadline b₁ hw _ _ hle' _ =>
        -- The look comes when the wait is over, not later.
        have hnow' : h.now n = h.now k + (h.polls n + 1) * h.idleWait :=
          (Nat.le_antisymm (waited hw).1 hle').trans (hdeadline _ _ hw)
        have hpolls : h.polls (n + 1) = h.polls n + 1 := by
          rw [polls_succ]
          unfold polled?
          rw [hd]
          rfl
        rw [hpolls]
        refine ⟨fun tiers deadline hwaiting => ?_, Nat.le_of_eq hnow'.symm⟩
        cases hwaiting
        rw [h.settings_eq n, hnow', Nat.succ_mul (h.polls n + 1), Nat.add_assoc]
        rfl
      | finished =>
        rw [polls_succ_of_none (polled?_of_deed hd)]
        exact ⟨fun _ _ hwaiting => (nomatch hwaiting), hpassed⟩

/-- The time of a look, while no message comes. -/
theorem now_of_polled (hstart : h.StartsAt k) (hp : h.polled? n = some tiers)
    (hnone : h.accepted n = []) : h.now n = h.now k + (h.polls n + 1) * h.idleWait := by
  obtain ⟨_, hworks⟩ := works_of_deed (deed?_of_polled hp)
  generalize h.bus (n + 1) = b' at hworks
  cases hworks with
  | polled hw _ _ hdeadline _ =>
    exact (Nat.le_antisymm (waited hw).1 hdeadline).trans
      ((quiet hstart (hstart.lt_of_deed (deed?_of_polled hp)) hnone).1 _ _ hw)

/-- If a tier has fired at every look whose number `looks` divides, then its
period has passed at a look if and only if `looks` divides its number, too. -/
theorem period_le_iff (h : History L T W) (start p period : Nat) :
    period ≤ start + (p + 1) * h.idleWait
        - (start + p / h.looks period * (h.idleWait * h.looks period)) ↔
      h.looks period ∣ p + 1 := by
  have hpos : 0 < h.looks period := Nat.le_max_left _ _
  have hdecomp := Nat.div_add_mod p (h.looks period)
  have hlt := Nat.mod_lt p hpos
  generalize hrest : p % h.looks period = rest at hdecomp hlt
  generalize p / h.looks period = f at hdecomp
  -- So many waits have passed since the tier fired last.
  have hsince : start + (p + 1) * h.idleWait - (start + f * (h.idleWait * h.looks period))
      = h.idleWait * (rest + 1) := by
    rw [← hdecomp, Nat.add_sub_add_left]
    refine Nat.sub_eq_of_eq_add ?_
    ring
  rw [hsince, ← ceilDiv_le_iff_le_mul h.idleWait_pos]
  have hdvd : h.looks period ∣ p + 1 ↔ h.looks period ∣ rest + 1 := by
    rw [← hdecomp, Nat.add_assoc]
    exact Nat.dvd_add_right (Nat.dvd_mul_right _ _)
  rw [hdvd]
  constructor
  · intro hle
    have heq : h.looks period = rest + 1 :=
      Nat.le_antisymm (Nat.max_le.mpr ⟨Nat.succ_pos _, hle⟩) hlt
    exact heq ▸ Nat.dvd_refl _
  · intro hdiv
    exact Nat.le_trans (Nat.le_max_right _ _) (Nat.le_of_dvd (Nat.succ_pos _) hdiv)

/-- While no message comes, each tier fires at every look whose number its
number of looks divides. -/
theorem firings_eq (hstart : h.StartsAt k) (hkn : k < n) (hnone : h.accepted n = [])
    {id : MessageId} {period : Nat} (hi : h.settings.tiers[i]? = some (id, period)) :
    h.firings i n = (List.range (h.polls n / h.looks period)).map fun j =>
      h.now k + (j + 1) * (h.idleWait * h.looks period) := by
  induction n, Nat.succ_le_of_lt hkn using Nat.le_induction with
  | base =>
    have hnone' : ∀ j < k + 1, h.deed? j = none := fun j hj =>
      hstart.deed?_eq_none (Nat.le_of_lt_succ hj)
    rw [firings_eq_nil hnone', polls_eq_zero hnone', Nat.zero_div]
    rfl
  | succ n hle ih =>
    have hnone' := (List.append_eq_nil_iff.mp hnone).1
    have hbefore := ih hle hnone'
    rw [firings_succ, polls_succ]
    cases hp : h.polled? n with
    | none =>
      rw [fires_of_none hp, hbefore]
      exact List.append_nil _
    | some tiers =>
      have hlast : h.lastFiring (h.now k) i n
          = h.now k + h.polls n / h.looks period * (h.idleWait * h.looks period) := by
        unfold lastFiring
        rw [hbefore]
        cases h.polls n / h.looks period with
        | zero => simp
        | succ f => simp [List.range_succ]
      have hfires : h.fires i n = decide (h.looks period ∣ h.polls n + 1) := by
        rw [fires_eq (polled?_eq hstart hp ▸ hp) hi, now_of_polled hstart hp hnone', hlast]
        exact decide_eq_decide.mpr (h.period_le_iff _ _ _)
      rw [hbefore, hfires, Option.isSome_some, if_pos rfl, Nat.succ_div]
      by_cases hdvd : h.looks period ∣ h.polls n + 1
      · -- This is the next look at which the tier fires.
        have hmul : h.polls n + 1
            = (h.polls n / h.looks period + 1) * h.looks period := by
          have hdiv := Nat.div_mul_cancel hdvd
          rw [Nat.succ_div, if_pos hdvd] at hdiv
          exact hdiv.symm
        rw [if_pos (decide_eq_true hdvd), if_pos hdvd, List.range_succ, List.map_append,
          now_of_polled hstart hp hnone', hmul, Nat.mul_assoc, Nat.mul_comm (h.looks period)]
        rfl
      · rw [if_neg (by simpa using hdvd), if_neg hdvd, List.append_nil]
        rfl

/-- At a settled moment of an open bus to which no message has come, the
worker waits. -/
theorem Settled.waiting (hsettled : h.Settled n) (hstarted : (h.bus n).worker ≠ .unstarted)
    (hopen : (h.bus n).isOpen = true) (hnone : h.accepted n = []) :
    ∃ tiers deadline, (h.bus n).worker = .waiting tiers deadline ∧ h.now n < deadline := by
  have hpending := pending_of_accepted hnone
  have hfailed := worker_ne_failed hnone
  have hcalling := h.worker_ne_calling n
  have hfinished := h.queue_of_finished n
  unfold Settled Bus.deed? at hsettled
  unfold pending at hpending
  generalize (h.bus n).worker = w at *
  cases w with
  | unstarted => exact absurd rfl hstarted
  | spawned => cases hsettled
  | waiting tiers deadline =>
    refine ⟨tiers, deadline, rfl, Nat.lt_of_not_le fun hdeadline => ?_⟩
    rw [(List.append_eq_nil_iff.mp hpending).2, hopen] at hsettled
    simp only [if_pos hdeadline] at hsettled
    cases hsettled
  | holding tiers e => cases hpending
  | calling => exact absurd rfl hcalling
  | finished =>
    rw [(hfinished rfl).1] at hopen
    cases hopen
  | failed => exact absurd rfl hfailed

/-- It has looked at the tiers as often as it could. -/
theorem Settled.polls_eq (hsettled : h.Settled n) (hstart : h.StartsAt k) (hkn : k < n)
    (hopen : (h.bus n).isOpen = true) (hnone : h.accepted n = []) :
    h.polls n = (h.now n - h.now k) / h.idleWait := by
  obtain ⟨tiers, deadline, hw, hlt⟩ := hsettled.waiting (hstart.started hkn) hopen hnone
  obtain ⟨hdeadline, hpassed⟩ := quiet hstart hkn hnone
  rw [hdeadline tiers deadline hw] at hlt
  exact (Nat.div_eq_of_lt_le (by omega) (by omega)).symm

/-- In every history, from the start of the worker on: it looks at the idle
tiers when it has waited for one idle poll since the end of its last round,
and has done nothing meanwhile. Then those tiers fire, each once and in
their order, whose periods have passed since they fired last, or since the
start. So firings of one tier are at least a period and an idle poll apart.
While no message comes, a tier fires at the multiples of its period, rounded
up to whole waits, and at none but these. -/
theorem heartbeat_on_time (hstart : h.StartsAt k) (hkn : k < n) :
    (∀ tiers, h.polled? n = some tiers →
      (∃ r, h.IdleSince r n ∧ h.now n = h.now r + h.idleWait ∧
        (h.deed? r = some .begin → h.now r = h.now k)) ∧
      (∀ i id period, h.settings.tiers[i]? = some (id, period) →
        (h.fires i n ↔ period ≤ h.now n - h.lastFiring (h.now k) i n)) ∧
      h.after (n + 1) = await (tiers.map fun t => t.poll (h.now n)) (h.now n)
        ((h.dueTiers (h.now k) n).foldl (fun s id => (dispatch h.stage.call { id } s).2)
          ((h.after n).setWorker .calling))) ∧
    ∀ i id period, h.settings.tiers[i]? = some (id, period) →
      ((h.now k :: h.firings i n).Pairwise fun a b => a + max period h.idleWait ≤ b) ∧
      (h.accepted n = [] →
        (∃ f, h.firings i n = (List.range f).map fun j =>
          h.now k + (j + 1) * (h.idleWait * h.looks period)) ∧
        (h.Settled n → (h.bus n).isOpen = true →
          h.firings i n = (List.range ((h.now n - h.now k) / (h.idleWait * h.looks period))).map
            fun j => h.now k + (j + 1) * (h.idleWait * h.looks period))) := by
  refine ⟨fun tiers hp => ⟨?_, fun i id period hi => ?_, ?_⟩, fun i id period hi =>
    ⟨firings_pairwise hstart n hi, fun hnone => ⟨⟨_, firings_eq hstart hkn hnone hi⟩,
      fun hsettled hopen => ?_⟩⟩⟩
  · obtain ⟨r, hidle, hnow⟩ := waited_of_polled hp
    exact ⟨r, hidle, hnow, now_of_begin hstart⟩
  · rw [fires_eq (polled?_eq hstart hp ▸ hp) hi, decide_eq_true_eq]
  · rw [after_of_deed (deed?_of_polled hp), ← fired_stamped, ← polled?_eq hstart hp]
    rfl
  · rw [firings_eq hstart hkn hnone hi, hsettled.polls_eq hstart hkn hopen hnone,
      Nat.div_div_eq_div_mul]

/-- A bus with two idle tiers to which no message comes. -/
def idleHistory : History Reply Reply Nat where
  stage := .plain
  settings := { idlePoll := 20, tiers := [(10, 30), (30, 100)] }
  host := 0
  events :=
    [.use (.start true), .work,
     .around 20, .work, .around 40, .work, .around 60, .work, .around 80, .work, .around 95]

/-- A period of 30 ms takes two waits of 20 ms. -/
theorem heartbeat_on_time_idle :
    idleHistory.StartsAt 0 ∧ idleHistory.Settled 11 ∧ idleHistory.firings 0 11 = [40, 80] := by
  have hstart : idleHistory.StartsAt 0 := ⟨rfl, fun heq => nomatch heq⟩
  have hsettled : idleHistory.Settled 11 := rfl
  obtain ⟨_, htiers⟩ := heartbeat_on_time hstart (by decide : 0 < 11)
  obtain ⟨_, hquiet⟩ := htiers 0 10 30 rfl
  refine ⟨hstart, hsettled, ?_⟩
  rw [(hquiet rfl).2 hsettled rfl]
  rfl

end History

end Backplane.Bus
