import Backplane.Proofs.Lock.Script
import Backplane.Proofs.Lock.Undisturbed
import Mathlib.Algebra.BigOperators.Intervals

/-!
# `Backplane.Proofs.Lock.Batch`: a call with a limit of time gets all or nothing

A call with a limit of time locks its ids one after the other, and takes its
grants back if the time runs out before it has the last one. The main
statements:

* `Stands.goes_on`, `Stands.gives_up`: what a run of the call does to its
  users' ownership and to the permits, from what was known before.
* `stands_at`: what is known of the call at each moment until it returns.
* `timed_batch_all_or_nothing`: what the users own when the call returns,
  where its permits are, and when it returns, if nobody has meddled with it.

The runs of the call are not one step, and others come in between. So what
the call owes is carried along (`Stands`): its users own what they owned at
first and what it has noted, and of each of these it has drawn one permit.
-/

set_option autoImplicit false

namespace Backplane.Lock

namespace Moment

/-! ### What is observed -/

/-- The permits of a lock that are available or in the hand of a call. -/
def supply (m : Moment) (t : String) (x : Int) : Nat :=
  ((m.service.lock t x).map Item.supply).getD 0

/-- What the runs of a call have taken out of the supply of a lock, less what
they have put back, from event `i` of a history on and before event `n`. -/
def drawn (es : List Event) (name : CallId) (t : String) (x : Int) (i n : Nat) : Int :=
  ∑ j ∈ Finset.Ico i n,
    if callerAt es j = some name then
      ((after es j).supply t x : Int) - (after es (j + 1)).supply t x
    else 0

/-- Event `i` of a history begins a call with a limit of time. -/
structure TryAt (es : List Event) (i : Nat) (r : Request) (users : Users) (limit : Nat) :
    Prop where
  request : es[i]? = some (.request r)
  timeout : r.timeout = some limit
  accepted : ∃ b, (after es i).service.resolve r.resourceType r.party = .ok (b, users)

/-- The call that event `i` of a history begins returns in event `k`. -/
inductive ReturnsAt (es : List Event) (i : Nat) : Nat → Bool → Prop where
  /-- It does not have to wait, or has no time to. -/
  | atOnce {r : Request} {granted : Bool} (hrequest : es[i]? = some (.request r))
      (hp : ((after es i).service.begin (after es i).nextCall r (after es i).now).1
        = .ok (.done granted)) : ReturnsAt es i i granted
  /-- It is woken. -/
  | later {k : Nat} {granted : Bool} {c : Call} (hlater : i < k)
      (hwake : es[k]? = some (.wake (after es i).nextCall))
      (hc : (after es k).service.calls.get? (after es i).nextCall = some c)
      (hp : ((after es k).service.resume (after es i).nextCall (after es k).now).1
        = .done granted) : ReturnsAt es i k granted

/-- The scheduler is prompt before event `k` of a history. -/
def PromptUntil (es : List Event) (k : Nat) : Prop :=
  ∀ j e, j < k → es[j]? = some e → (after es j).Prompt e

variable {es : List Event} {i k n : Nat} {r : Request} {users : Users} {limit : Nat} {x u : Int}
  {name : CallId} {t : String}

theorem supply_of_get? {m : Moment} {b : Block} (hb : m.service.blocks.get? t = some b) (x : Int) :
    m.supply t x = (b.item x).supply := by
  unfold supply
  rw [Service.lock_of_get? hb]
  rfl

@[simp] theorem drawn_self (es : List Event) (name : CallId) (t : String) (x : Int) (i : Nat) :
    drawn es name t x i i = 0 := by
  unfold drawn
  rw [Finset.Ico_self, Finset.sum_empty]

theorem drawn_succ_of_ne (hle : i ≤ n) (hother : callerAt es n ≠ some name) :
    drawn es name t x i (n + 1) = drawn es name t x i n := by
  unfold drawn
  rw [Finset.sum_Ico_succ_top hle, if_neg hother, add_zero]

theorem drawn_succ (hle : i ≤ n) (hown : callerAt es n = some name) :
    drawn es name t x i (n + 1) = drawn es name t x i n
      + (((after es n).supply t x : Int) - (after es (n + 1)).supply t x) := by
  unfold drawn
  rw [Finset.sum_Ico_succ_top hle, if_pos hown]

theorem inTime_after (h : PromptUntil es k) : (after es k).InTime := by
  induction k with
  | zero => exact fun _ _ _ hc => nomatch hc
  | succ k ih =>
    have hin := ih fun j e hj => h j e (Nat.lt_succ_of_lt hj)
    cases he : es[k]? with
    | none => rwa [after_of_end he]
    | some e =>
      rw [after_succ he]
      exact inTime_step (sound_after es k) (h k e (Nat.lt_succ_self k) he) hin

/-! ### The call itself -/

/-- What is known of the call that event `i` of a history begins, before
event `n`: as long as it is under way, or when it is about to begin. -/
structure Stands (es : List Event) (i n : Nat) (r : Request) (users : Users) (c : Call) :
    Prop where
  here : (n = i ∧ c = Service.callOf r users (after es i).now) ∨
    (after es n).service.calls.get? (after es i).nextCall = some c
  continues : (Service.callOf r users (after es i).now).Continues c
  ids_subset : ∀ x ∈ c.taken ++ c.ids, x ∈ r.ids
  /-- Its users own what they owned at first, and what it has noted. -/
  owners : ∀ x ∈ r.ids, ∀ u ∈ users, (after es n).IsOwner r.resourceType x u ↔
    (after es i).IsOwner r.resourceType x u ∨ x ∈ c.taken
  /-- What it has noted none of them owned at first. -/
  new : ∀ x ∈ c.taken, ∀ u ∈ users, ¬ (after es i).IsOwner r.resourceType x u
  /-- What is behind it one of them owns. -/
  reached : ∀ x ∈ r.ids, x ∈ c.ids ∨ ∃ u ∈ users, (after es n).IsOwner r.resourceType x u
  /-- It has drawn one permit for each id that it has noted. -/
  drawn_eq : ∀ t x, drawn es (after es i).nextCall t x i n
    = if t = r.resourceType ∧ x ∈ c.taken then 1 else 0

theorem stands_start (es : List Event) (i : Nat) (r : Request) (users : Users) :
    Stands es i i r users (Service.callOf r users (after es i).now) where
  here := .inl ⟨rfl, rfl⟩
  continues := .refl _
  ids_subset x hx := (Roster.mem_ofList r.ids x).mp hx
  owners x _ u _ := ⟨.inl, fun h => h.resolve_right List.not_mem_nil⟩
  new x hx := absurd hx List.not_mem_nil
  reached x hx := .inl ((Roster.mem_ofList r.ids x).mpr hx)
  drawn_eq t x := by
    rw [drawn_self, if_neg]
    exact fun h => List.not_mem_nil h.2

/-- A call that is not let run, or is woken for nothing, stands where it
stood. -/
theorem Stands.stays {c : Call} (hs : Stands es i n r users c)
    (hc : (after es (n + 1)).service.calls.get? (after es i).nextCall = some c)
    (howners : ∀ x ∈ r.ids, ∀ u ∈ users, (after es (n + 1)).IsOwner r.resourceType x u ↔
      (after es n).IsOwner r.resourceType x u)
    (hdrawn : ∀ t x, drawn es (after es i).nextCall t x i (n + 1)
      = drawn es (after es i).nextCall t x i n) : Stands es i (n + 1) r users c where
  here := .inr hc
  continues := hs.continues
  ids_subset := hs.ids_subset
  owners x hx u hu := (howners x hx u hu).trans (hs.owners x hx u hu)
  new := hs.new
  reached x hx := (hs.reached x hx).imp_right fun ⟨u, hu, hown⟩ =>
    ⟨u, hu, (howners x hx u hu).mpr hown⟩
  drawn_eq t x := (hdrawn t x).trans (hs.drawn_eq t x)

section OwnRun

variable {c c' : Call} {p : Progress} {b b' : Block}

theorem Stands.type_eq (hs : Stands es i n r users c) : c.resourceType = r.resourceType :=
  hs.continues.resourceType_eq

theorem Stands.users_eq (hs : Stands es i n r users c) : c.users = users := hs.continues.users_eq

/-- A call with a limit of time has a deadline. -/
theorem Stands.deadline_eq (hs : Stands es i n r users c) (htimeout : r.timeout = some limit) :
    c.deadline = some ((after es i).now + limit) := by
  rw [hs.continues.deadline_eq]
  show r.timeout.map _ = _
  rw [htimeout, Option.map_some]

/-- The owners before and after a run of the call, on its type. -/
theorem Stands.isOwner_run (hs : Stands es i n r users c)
    (hran : Service.Ran name (after es n).now (after es n).service b c p
      (after es (n + 1)).service b') (x u : Int) :
    ((after es n).IsOwner r.resourceType x u ↔ u ∈ (b.item x).owners) ∧
      ((after es (n + 1)).IsOwner r.resourceType x u ↔ u ∈ (b'.item x).owners) := by
  rw [← hs.type_eq]
  exact ⟨isOwner_iff hran.found u, isOwner_iff (by rw [hran.get?, if_pos rfl]) u⟩

/-- What a run of the call draws from the locks of its type, and that it
draws nothing from others. -/
theorem Stands.drawn_run (hs : Stands es i n r users c) (hle : i ≤ n)
    (hown : callerAt es n = some (after es i).nextCall)
    (hran : Service.Ran name (after es n).now (after es n).service b c p
      (after es (n + 1)).service b') (t : String) (x : Int) :
    drawn es (after es i).nextCall t x i (n + 1)
      = (if t = r.resourceType ∧ x ∈ c.taken then 1 else 0)
        + if t = r.resourceType then ((b.item x).supply : Int) - (b'.item x).supply else 0 := by
  rw [drawn_succ hle hown, hs.drawn_eq]
  congr 1
  have hget := hran.get? t
  rw [hs.type_eq] at hget
  split at hget
  · rename_i ht
    have hfound := hran.found
    rw [hs.type_eq, ← ht] at hfound
    rw [if_pos ht, supply_of_get? hfound, supply_of_get? hget]
  · rename_i ht
    have hsame : (after es (n + 1)).supply t x = (after es n).supply t x := by
      unfold supply Service.lock
      rw [hget]
    rw [if_neg ht, hsame, Int.sub_self]

/-- After a run of a call that goes on or is done, what is behind it is owned
by one of its users. -/
theorem Stands.reached_run (hs : Stands es i n r users c)
    (hran : Service.Ran name (after es n).now (after es n).service b c p
      (after es (n + 1)).service b') (hp : p ≠ .done false) (hx : x ∈ r.ids) :
    x ∈ p.ahead ∨ ∃ u ∈ users, (after es (n + 1)).IsOwner r.resourceType x u := by
  rcases hs.reached x hx with hids | ⟨u, hu, hown⟩
  · refine (hran.run.reached hran.ready hp hids).imp_right fun howned => ?_
    obtain ⟨u, hu, hown⟩ := (Item.isOwnedByAny_iff _ _).mp howned
    exact ⟨u, hs.users_eq ▸ hu, (hs.isOwner_run hran x u).2.mpr hown⟩
  · refine .inr ⟨u, hu, ?_⟩
    by_contra hafter
    exact hp (takesBack_of_ran _ hran hown hafter).2.1

/-- A run of the call changes the ownership of nobody but its users, and of
nothing but its resources. -/
theorem Stands.others_run (hs : Stands es i n r users c)
    (hran : Service.Ran name (after es n).now (after es n).service b c p
      (after es (n + 1)).service b')
    (hother : ¬ (t = r.resourceType ∧ x ∈ r.ids ∧ u ∈ users)) :
    (after es (n + 1)).IsOwner t x u ↔ (after es n).IsOwner t x u := by
  by_cases ht : t = r.resourceType
  · obtain ⟨hbefore, hafter⟩ := hs.isOwner_run hran x u
    have hnot : ∀ ids : List Int, (∀ y ∈ ids, y ∈ c.taken ++ c.ids) →
        ¬ (x ∈ ids ∧ u ∈ c.users) := fun ids hids ⟨hx, hu⟩ =>
      hother ⟨ht, hs.ids_subset x (hids x hx), hs.users_eq ▸ hu⟩
    rw [ht, hbefore, hafter]
    rcases hran.run.owners hran.ready with ⟨granted, hgranted, howners, _⟩ | ⟨_, _, howners⟩
    · have hmem := hnot granted fun y hy => List.mem_append_right _ (hgranted y hy).1
      rw [howners x u, or_iff_left hmem]
    · have hmem := hnot c.taken fun y hy => List.mem_append_left _ hy
      rw [howners x u, and_iff_left hmem]
  · have hget := hran.get? t
    rw [hs.type_eq, if_neg ht] at hget
    unfold IsOwner
    rw [hget]

/-- After a run a call that waits again stands further on. -/
theorem Stands.goes_on (hs : Stands es i n r users c) (hle : i ≤ n)
    (htimeout : r.timeout = some limit) (hown : callerAt es n = some (after es i).nextCall)
    (hran : Service.Ran (after es i).nextCall (after es n).now (after es n).service b c
      (.waiting c') (after es (n + 1)).service b') : Stands es i (n + 1) r users c' := by
  obtain ⟨htype, husers, hdeadline, _, hsub, hprefix, _⟩ := hran.run.call rfl
  rcases hran.run.owners hran.ready with ⟨granted, hgranted, howners, _, hnotes⟩ | ⟨hp, _⟩
  · have htaken : c'.taken = c.taken ++ granted :=
      hnotes c' rfl (by rw [hs.deadline_eq htimeout]; rfl)
    have hids : ∀ y ∈ granted, y ∈ r.ids := fun y hy =>
      hs.ids_subset y (List.mem_append_right _ (hgranted y hy).1)
    have hfresh : ∀ y ∈ granted, ∀ u ∈ users, ¬ (after es n).IsOwner r.resourceType y u := by
      intro y hy u hu hbefore
      rw [(hs.isOwner_run hran y u).1] at hbefore
      exact Item.not_mem_owners (hgranted y hy).2 (hs.users_eq ▸ hu) hbefore
    exact {
      here := .inr (by rw [hran.call?, if_pos rfl]; rfl)
      continues := hs.continues.trans ⟨htype, husers, hdeadline, hprefix⟩
      ids_subset := fun y hy => hs.ids_subset y (hsub.subset hy)
      owners := by
        intro y hy u hu
        obtain ⟨hbefore, hafter⟩ := hs.isOwner_run hran y u
        have hmem : u ∈ c.users := hs.users_eq ▸ hu
        rw [hafter, howners y u, ← hbefore, hs.owners y hy u hu, htaken, List.mem_append, or_assoc]
        simp only [hmem, and_true]
      new := by
        intro y hy u hu hfirst
        rw [htaken] at hy
        rcases List.mem_append.mp hy with hold | hnew
        · exact hs.new y hold u hu hfirst
        · -- Who owned it at first would own it still, and the run would have passed it over.
          exact hfresh y hnew u hu ((hs.owners y (hids y hnew) u hu).mpr (.inl hfirst))
      reached := fun y hy => hs.reached_run hran Progress.noConfusion hy
      drawn_eq := by
        intro t y
        -- Each of the new grants has cost one permit, and is none of the old ones.
        have hsupply := hran.run.supply hran.ready Progress.noConfusion
          (fun y hy => (hgranted y hy).2) howners y
        have hdisjoint : y ∈ granted → y ∉ c.taken := fun hnew hold =>
          hran.ready.not_mem_ids hold (hgranted y hnew).1
        rw [hs.drawn_run hle hown hran, htaken, ← hsupply]
        by_cases ht : t = r.resourceType
        · by_cases hnew : y ∈ granted
          · simp [ht, hnew, hdisjoint hnew]
          · simp [ht, hnew]
        · simp [ht] }
  · cases hp

/-- A call that gives up leaves its users what they owned at first, and has
put back every permit that it had drawn. -/
theorem Stands.gives_up (hs : Stands es i n r users c) (hle : i ≤ n)
    (hown : callerAt es n = some (after es i).nextCall)
    (hran : Service.Ran (after es i).nextCall (after es n).now (after es n).service b c
      (.done false) (after es (n + 1)).service b')
    (hcovered : ∀ x ∈ r.ids, (b.item x).Covered b.allowMulti) :
    (∀ x ∈ r.ids, ∀ u ∈ users, (after es (n + 1)).IsOwner r.resourceType x u ↔
      (after es i).IsOwner r.resourceType x u) ∧
    ∀ t x, drawn es (after es i).nextCall t x i (n + 1) = 0 := by
  rcases hran.run.owners hran.ready with ⟨_, _, _, hp, _⟩ | ⟨_, _, howners⟩
  · exact absurd rfl hp
  · refine ⟨fun x hx u hu => ?_, fun t x => ?_⟩
    · obtain ⟨hbefore, hafter⟩ := hs.isOwner_run hran x u
      have hmem : u ∈ c.users := hs.users_eq ▸ hu
      rw [hafter, howners x u, ← hbefore, hs.owners x hx u hu]
      by_cases htaken : x ∈ c.taken
      · have hnew := hs.new x htaken u hu
        simp [htaken, hmem, hnew]
      · simp [htaken]
    · -- Whatever it has noted its users own, so there is a grant to take back.
      have hheld : ∀ y ∈ c.taken, 0 < (b.item y).held := by
        intro y hy
        have hids := hs.ids_subset y (List.mem_append_left _ hy)
        obtain ⟨u, hu⟩ := List.exists_mem_of_ne_nil _ hran.ready.fits.ne_nil
        have hbefore := (hs.owners y hids u (hs.users_eq ▸ hu)).mpr (.inr hy)
        exact (hcovered y hids).held_pos ((hs.isOwner_run hran y u).1.mp hbefore)
      have hsupply := hran.run.supply_of_giveUp hran.ready rfl hheld x
      rw [hs.drawn_run hle hown hran, hsupply]
      by_cases ht : t = r.resourceType
      · by_cases htaken : x ∈ c.taken
        · simp [ht, htaken]
        · simp [ht, htaken]
      · simp [ht]

end OwnRun

/-! ### From the request to the return -/

/-- An event that lets the call run does so, or changes nothing. -/
theorem Stands.run (htry : TryAt es i r users limit) {c : Call} (hs : Stands es i n r users c)
    (hown : callerAt es n = some (after es i).nextCall) :
    (after es (n + 1)).service = (after es n).service ∨
      ∃ p b b', Service.Ran (after es i).nextCall (after es n).now (after es n).service b c p
        (after es (n + 1)).service b' := by
  have hsound := sound_after es n
  rcases hs.here with ⟨rfl, rfl⟩ | hc
  · have hstep : (after es (n + 1)).service
        = ((after es n).service.begin (after es n).nextCall r (after es n).now).2.1 :=
      congrArg Moment.service (after_succ htry.request)
    rw [hstep]
    rcases Service.begin_cases hsound.service hsound.nextCall_free r (after es n).now with
      ⟨e, he⟩ | ⟨users', b, p, b', hresolve, _, hran⟩
    · exact .inl (congrArg (fun q => q.2.1) he)
    · obtain ⟨b₀, haccepted⟩ := htry.accepted
      rw [hresolve] at haccepted
      cases haccepted
      exact .inr ⟨p, b, b', hran⟩
  · cases he : es[n]? with
    | none =>
      unfold callerAt at hown
      rw [he] at hown
      cases hown
    | some e =>
      rw [callerAt_eq he] at hown
      have hstep := congrArg Moment.service (after_succ he)
      cases e with
      | request r' =>
        -- The next call has another name than one under way.
        have hlt := hsound.name_lt hc
        rw [← Option.some.inj hown] at hlt
        exact absurd hlt (Nat.lt_irrefl _)
      | wake name =>
        obtain rfl : name = (after es i).nextCall := Option.some.inj hown
        rw [hstep]
        rcases Service.resume_cases hsound.service hc (after es n).now with heq | ⟨b, b', hran⟩
        · exact .inl (congrArg (fun q => q.2.1) heq)
        · exact .inr ⟨_, b, b', hran⟩
      | _ => cases hown

/-- After an event that lets the call run, and does not end it, it stands
further on or where it stood. -/
theorem Stands.step_own (htry : TryAt es i r users limit) {c c' : Call}
    (hs : Stands es i n r users c) (hle : i ≤ n)
    (hown : callerAt es n = some (after es i).nextCall)
    (hc' : (after es (n + 1)).service.calls.get? (after es i).nextCall = some c') :
    Stands es i (n + 1) r users c' := by
  rcases hs.run htry hown with hsame | ⟨p, b, b', hran⟩
  · -- The call was under way already and is woken for nothing.
    have hc : (after es n).service.calls.get? (after es i).nextCall = some c' := hsame ▸ hc'
    have hcall : c = c' := by
      rcases hs.here with ⟨rfl, _⟩ | hhere
      · rw [(sound_after es n).nextCall_free] at hc
        cases hc
      · exact Option.some.inj (hhere.symm.trans hc)
    subst hcall
    have hlock : ∀ t x, (after es (n + 1)).service.lock t x = (after es n).service.lock t x :=
      fun t x => hsame ▸ rfl
    refine hs.stays hc' (fun x _ u _ => isOwner_of_lock_eq (hlock _ x)) fun t x => ?_
    rw [drawn_succ hle hown, supply, supply, hlock, Int.sub_self, add_zero]
  · rw [hran.call?, if_pos rfl] at hc'
    cases p with
    | waiting c₁ =>
      cases hc'
      exact hs.goes_on hle htry.timeout hown hran
    | done granted => cases hc'

/-- After an event that does not let the call run, it stands where it stood. -/
theorem Stands.step_other (htry : TryAt es i r users limit) (hq : Undisturbed es i k r users)
    {c : Call} (hs : Stands es i n r users c) (hle : i ≤ n) (hn : n < k)
    (hother : callerAt es n ≠ some (after es i).nextCall) : Stands es i (n + 1) r users c := by
  have hlt : i < n := by
    refine Nat.lt_of_le_of_ne hle fun heq => hother ?_
    rw [← heq]
    exact callerAt_eq htry.request
  have hc : (after es n).service.calls.get? (after es i).nextCall = some c :=
    hs.here.resolve_left fun h => absurd h.1 (Nat.ne_of_gt hlt)
  have hkept : (after es (n + 1)).service.calls.get? (after es i).nextCall = some c := by
    cases he : es[n]? with
    | none => rwa [after_of_end he]
    | some e =>
      rw [callerAt_eq he] at hother
      rw [after_succ he, call?_step_of_ne (sound_after es n) hother, hc]
  exact hs.stays hkept (fun x hx u hu => hq.isOwner_iff hlt hn hother hx hu)
    fun t x => drawn_succ_of_ne hle hother

/-- At each moment until it returns it is known how the call stands. -/
theorem stands_at (htry : TryAt es i r users limit) (hq : Undisturbed es i k r users)
    (hunder : UnderWay es i k) (hle : i ≤ n) (hn : n ≤ k) : ∃ c, Stands es i n r users c := by
  induction n, hle using Nat.le_induction with
  | base => exact ⟨_, stands_start es i r users⟩
  | succ n hle ih =>
    obtain ⟨c, hs⟩ := ih (Nat.le_of_succ_le hn)
    by_cases hown : callerAt es n = some (after es i).nextCall
    · obtain ⟨c', hc'⟩ := hunder (n + 1) (Nat.lt_succ_of_le hle) hn
      exact ⟨c', hs.step_own htry hle hown hc'⟩
    · exact ⟨c, hs.step_other htry hq hle hn hown⟩

/-- Between the request and its return the call is under way. -/
theorem ReturnsAt.under_way {granted : Bool} (htry : TryAt es i r users limit)
    (h : ReturnsAt es i k granted) : i ≤ k ∧ UnderWay es i k := by
  cases h with
  | atOnce _ _ => exact ⟨Nat.le_refl i, fun n hi hn => absurd hi (Nat.not_lt.mpr hn)⟩
  | later hlater _ hc _ =>
    refine ⟨Nat.le_of_lt hlater, fun n hi hn => ?_⟩
    have hname : (after es i).nextCall < (after es n).nextCall := by
      have hmono := nextCall_mono es (Nat.succ_le_of_lt hi)
      rw [after_succ htry.request] at hmono
      exact Nat.lt_of_lt_of_le (Nat.lt_succ_self _) hmono
    obtain ⟨c₀, hc₀, _⟩ := call_at hn hname hc
    exact ⟨c₀, hc₀⟩

/-- The last run of the call. -/
theorem ReturnsAt.run {granted : Bool} (htry : TryAt es i r users limit)
    (hq : Undisturbed es i k r users) (h : ReturnsAt es i k granted) :
    callerAt es k = some (after es i).nextCall ∧
      ∃ c b b', Stands es i k r users c ∧
        Service.Ran (after es i).nextCall (after es k).now (after es k).service b c
          (.done granted) (after es (k + 1)).service b' := by
  obtain ⟨hle, hunder⟩ := h.under_way htry
  obtain ⟨c, hs⟩ := stands_at htry hq hunder hle (Nat.le_refl k)
  have hsound := sound_after es k
  cases h with
  | @atOnce r' _ hrequest hp =>
    obtain rfl : r' = r := Event.request.inj (Option.some.inj (hrequest.symm.trans htry.request))
    refine ⟨callerAt_eq hrequest, Service.callOf r' users (after es i).now, ?_⟩
    rw [after_succ hrequest]
    rcases Service.begin_cases hsound.service hsound.nextCall_free r' (after es i).now with
      ⟨e, he⟩ | ⟨users', b, p, b', hresolve, hp', hran⟩
    · rw [he] at hp
      cases hp
    · obtain ⟨b₀, haccepted⟩ := htry.accepted
      rw [hresolve] at haccepted
      cases haccepted
      rw [hp] at hp'
      cases hp'
      exact ⟨b, b', stands_start es i r' users, hran⟩
  | @later k _ c' hlater hwake hc hp =>
    have hcall : c = c' := by
      rcases hs.here with ⟨heq, _⟩ | hhere
      · exact absurd heq (Nat.ne_of_gt hlater)
      · exact Option.some.inj (hhere.symm.trans hc)
    subst hcall
    refine ⟨callerAt_eq hwake, c, ?_⟩
    rw [after_succ hwake]
    rcases Service.resume_cases hsound.service hc (after es k).now with heq | ⟨b, b', hran⟩
    · rw [heq] at hp
      cases hp
    · rw [hp] at hran
      exact ⟨b, b', hs, hran⟩

/-- A call with a limit of time that nobody meddles with gets all of its
resources or none of them. If it returns that it is granted, each of them is
owned by one of its users. If it returns that it is not, its users own just
those which they owned when it began, and its runs have put back every permit
that they have taken, where it is available or in the hand of a call that
waits. Neither way have its runs changed anybody else's ownership. And if the
scheduler is prompt, the call returns within its time, and if it is not
granted anything then exactly at the end of it. The history is otherwise
arbitrary: whatever was owned, whoever waits, and whatever happens on the same
resources for other users. -/
theorem timed_batch_all_or_nothing (es : List Event) {i k : Nat} {r : Request} {users : Users}
    {limit : Nat} {granted : Bool} (htry : TryAt es i r users limit)
    (hreturns : ReturnsAt es i k granted) (hquiet : Undisturbed es i k r users) :
    (granted = true → ∀ x ∈ r.ids, ∃ u ∈ users, (after es (k + 1)).IsOwner r.resourceType x u) ∧
      (granted = false →
        (∀ x ∈ r.ids, ∀ u ∈ users, (after es (k + 1)).IsOwner r.resourceType x u ↔
          (after es i).IsOwner r.resourceType x u) ∧
        ∀ t x, drawn es (after es i).nextCall t x i (k + 1) = 0) ∧
      (∀ j, i ≤ j → j ≤ k → callerAt es j = some (after es i).nextCall →
        ∀ t x u, ¬ (t = r.resourceType ∧ x ∈ r.ids ∧ u ∈ users) →
          ((after es (j + 1)).IsOwner t x u ↔ (after es j).IsOwner t x u)) ∧
      (PromptUntil es k → (after es k).now ≤ (after es i).now + limit ∧
        (granted = false → (after es k).now = (after es i).now + limit)) := by
  obtain ⟨hle, hunder⟩ := hreturns.under_way htry
  obtain ⟨hown, c, b, b', hs, hran⟩ := hreturns.run htry hquiet
  have hdeadline := hs.deadline_eq htry.timeout
  refine ⟨?_, ?_, fun j hij hjk hcaller t x u hother => ?_, fun hprompt => ?_⟩
  · rintro rfl x hx
    exact (hs.reached_run hran (by decide) hx).resolve_left List.not_mem_nil
  · rintro rfl
    refine hs.gives_up hle hown hran fun x hx => ?_
    exact covered_at hquiet hunder hx (Nat.le_refl k) b (hs.type_eq ▸ hran.found)
  · obtain ⟨c₁, hs₁⟩ := stands_at htry hquiet hunder hij hjk
    rcases hs₁.run htry hcaller with hsame | ⟨p, b₁, b₂, hran₁⟩
    · exact isOwner_of_lock_eq (hsame ▸ rfl)
    · exact hs₁.others_run hran₁ hother
  · have hlast : (after es k).now ≤ (after es i).now + limit := by
      rcases hs.here with ⟨rfl, _⟩ | hc
      · exact Nat.le_add_right _ _
      · exact inTime_after hprompt _ c _ hc hdeadline
    refine ⟨hlast, ?_⟩
    rintro rfl
    have hlate := hran.run.isLate
    unfold Call.isLate at hlate
    rw [hdeadline, Option.any_some, decide_eq_true_eq] at hlate
    exact Nat.le_antisymm hlast hlate

/-- A call for three resources owns the first one already, is granted the
second one and waits for the third until its time is up. Another call waits
for the second one meanwhile. -/
def hopelessTry : List Event :=
  [.declare ⟨"bed", 1, false⟩,
   .request ⟨"bed", [1], .one 10, none⟩,
   .request ⟨"bed", [3], .one 99, none⟩,
   .request ⟨"bed", [3, 1, 2], .one 10, some 30⟩,
   .request ⟨"bed", [2], .one 20, none⟩,
   .elapse 30,
   .wake 2]

/-- It keeps the first resource, and the permit of the second one goes to the
call that waits. -/
theorem timed_batch_all_or_nothing_hopelessTry :
    TryAt hopelessTry 3 ⟨"bed", [3, 1, 2], .one 10, some 30⟩ ⟨[10]⟩ 30 ∧
      ReturnsAt hopelessTry 3 6 false ∧
      Undisturbed hopelessTry 3 6 ⟨"bed", [3, 1, 2], .one 10, some 30⟩ ⟨[10]⟩ ∧
      PromptUntil hopelessTry 6 ∧
      (after hopelessTry 7).IsOwner "bed" 1 10 ∧ ¬ (after hopelessTry 7).IsOwner "bed" 2 10 ∧
      drawn hopelessTry 2 "bed" 2 3 7 = 0 ∧
      (after hopelessTry 6).now = (after hopelessTry 3).now + 30 := by
  have htry : TryAt hopelessTry 3 ⟨"bed", [3, 1, 2], .one 10, some 30⟩ ⟨[10]⟩ 30 :=
    ⟨rfl, rfl, _, rfl⟩
  have hreturns : ReturnsAt hopelessTry 3 6 false := .later (by decide) rfl rfl rfl
  have hquiet : Undisturbed hopelessTry 3 6 ⟨"bed", [3, 1, 2], .one 10, some 30⟩ ⟨[10]⟩ := by
    refine ⟨fun j hj hne => ?_, fun j name hi hk _ _ => ?_, fun j e hi hk he => ?_⟩
    · -- The other requests have no limit of time.
      rintro ⟨r, users, hr, ⟨htimeout, _⟩, _⟩
      have hcases : j = 0 ∨ j = 1 ∨ j = 2 ∨ j = 4 ∨ j = 5 := by omega
      rcases hcases with rfl | rfl | rfl | rfl | rfl <;> cases hr <;> cases htimeout
    · have hcases : j = 4 ∨ j = 5 := by omega
      rcases hcases with rfl | rfl <;> decide
    · have hcases : j = 4 ∨ j = 5 := by omega
      rcases hcases with rfl | rfl <;> cases he <;>
        exact fun _ _ _ _ h => (h.elim id fun h => h.2).elim
  have hprompt : PromptUntil hopelessTry 6 := by
    intro j e hj he
    have hcases : j = 0 ∨ j = 1 ∨ j = 2 ∨ j = 3 ∨ j = 4 ∨ j = 5 := by omega
    rcases hcases with rfl | rfl | rfl | rfl | rfl | rfl <;> cases he
    case inr.inr.inr.inr.inr => exact prompt_of_entries (by decide) (by decide)
    all_goals trivial
  obtain ⟨_, hdenied, _, htime⟩ := timed_batch_all_or_nothing hopelessTry htry hreturns hquiet
  obtain ⟨howners, hdrawn⟩ := hdenied rfl
  refine ⟨htry, hreturns, hquiet, hprompt, ?_, ?_, hdrawn "bed" 2, (htime hprompt).2 rfl⟩
  · exact (howners 1 (by decide) 10 (by decide)).mpr (by decide)
  · exact fun hown => absurd ((howners 2 (by decide) 10 (by decide)).mp hown) (by decide)

end Moment

end Backplane.Lock
