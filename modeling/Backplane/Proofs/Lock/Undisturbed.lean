import Backplane.Proofs.Lock.Refund
import Backplane.Proofs.Lock.Tenure

/-!
# `Backplane.Proofs.Lock.Undisturbed`: calls that nobody meddles with

A call with a limit of time notes the ids that it was granted and not the
grants, so a rollback can hit a grant that is not its own (see
`Backplane.Proofs.Lock.Exclusion` and `Backplane.Proofs.Lock.Ownership`).
`Undisturbed` says of a history that nobody meddles with such a call: no other
timed batch touches its resources, and while it is under way nobody else locks
or unlocks one of them for one of its users. The history is arbitrary
otherwise. The main statements:

* `Undisturbed.isOwner_iff`: what the users own of the resources only the call
  itself changes.
* `covered_at`: no owner of a resource is without a grant, so that a rollback
  of the call has a permit to put back.

Both need to know that the other calls take nothing back. This is because
those that are no timed batches are plain, from their requests on.
-/

set_option autoImplicit false

namespace Backplane.Lock

open Relation (ReflTransGen)

namespace Moment

/-- The call that an event of a history lets run. -/
def callerAt (es : List Event) (n : Nat) : Option CallId := es[n]?.bind (after es n).caller?

/-- Event `j` of a history begins a timed batch that touches a resource of a
request. -/
def RivalAt (es : List Event) (j : Nat) (r : Request) : Prop :=
  ∃ r' users, es[j]? = some (.request r') ∧ r'.IsTimedBatch ∧
    (∃ b, (after es j).service.resolve r'.resourceType r'.party = .ok (b, users)) ∧
    r'.resourceType = r.resourceType ∧ ∃ x ∈ r'.ids, x ∈ r.ids

/-- Nobody meddles with the call for `users` that event `i` of a history
begins and event `k` ends. -/
structure Undisturbed (es : List Event) (i k : Nat) (r : Request) (users : Users) : Prop where
  /-- No other timed batch touches its resources, not even before it. -/
  no_rival : ∀ j, j < k → j ≠ i → ¬ RivalAt es j r
  /-- No other call locks one of them for one of its users. -/
  no_lock : ∀ j name, i < j → j < k → callerAt es j = some name → name ≠ (after es i).nextCall →
    ∀ x ∈ r.ids, ∀ u ∈ users, (after es (j + 1)).IsOwner r.resourceType x u →
      (after es j).IsOwner r.resourceType x u
  /-- No unlock for one of its users, and no unlock at all if grants are
  shared, ends their ownership of one of them. -/
  no_unlock : ∀ j e, i < j → j < k → es[j]? = some e → ∀ x ∈ r.ids, ∀ u ∈ users,
    e.Frees r.resourceType x u ∨
      ((after es j).service.IsShared r.resourceType ∧ e.Unlocks r.resourceType x) →
    (after es j).IsOwner r.resourceType x u → (after es (j + 1)).IsOwner r.resourceType x u

/-- The call that event `i` of a history begins is under way until event `k`. -/
def UnderWay (es : List Event) (i k : Nat) : Prop :=
  ∀ n, i < n → n ≤ k → ∃ c, (after es n).service.calls.get? (after es i).nextCall = some c

variable {es : List Event} {i k n : Nat} {r : Request} {users : Users} {x u : Int}
  {name : CallId} {t : String} {e : Event}

theorem callerAt_eq (he : es[n]? = some e) : callerAt es n = (after es n).caller? e := by
  unfold callerAt
  rw [he, Option.bind_some]

/-! ### The other calls -/

/-- A call that is not the one in question, and asks for one of its
resources, is no timed batch. -/
theorem Undisturbed.not_batch (hq : Undisturbed es i k r users) {j : Nat} (hj : j < k)
    {r' : Request} {users' : Users} (hr : es[j]? = some (.request r'))
    (hresolve : ∃ b, (after es j).service.resolve r'.resourceType r'.party = .ok (b, users'))
    (hname : (after es j).nextCall ≠ (after es i).nextCall)
    (ht : r'.resourceType = r.resourceType) (hx' : x ∈ r'.ids) (hx : x ∈ r.ids) :
    ¬ r'.IsTimedBatch := by
  intro hbatch
  refine hq.no_rival j hj (fun hji => hname (hji ▸ rfl)) ?_
  exact ⟨r', users', hr, hbatch, hresolve, ht, x, hx', hx⟩

/-- So if it is under way, it has nothing to take back. -/
theorem Undisturbed.plain_under_way (hq : Undisturbed es i k r users) (hn : n ≤ k) {c : Call}
    (hc : (after es n).service.calls.get? name = some c) (hname : name ≠ (after es i).nextCall)
    (ht : c.resourceType = r.resourceType) (hx : x ∈ r.ids) (hmem : x ∈ c.taken ++ c.ids) :
    c.Plain := by
  obtain ⟨j, r', users', hj, hr, rfl, hresolve, honward⟩ := begun_at hc
  have htype : r'.resourceType = r.resourceType := honward.resourceType_eq.symm.trans ht
  have hx' : x ∈ r'.ids := (Roster.mem_ofList r'.ids x).mp (honward.sublist.subset hmem)
  have hbatch := hq.not_batch (Nat.lt_of_lt_of_le hj hn) hr hresolve hname htype hx' hx
  exact (Service.plain_callOf hbatch users' _).onward honward

/-- Nor if it runs. -/
theorem Undisturbed.plain_runs (hq : Undisturbed es i k r users) (hn : n < k)
    (he : es[n]? = some e) {c : Call} {p : Progress} (hruns : Runs (after es n) name c p e)
    (hname : name ≠ (after es i).nextCall) (ht : c.resourceType = r.resourceType) (hx : x ∈ r.ids)
    (hmem : x ∈ c.taken ++ c.ids) : c.Plain := by
  cases hruns with
  | begins r' users' hnext hcall _ hresolve =>
    subst hcall hnext
    have hx' : x ∈ r'.ids := (Roster.mem_ofList r'.ids x).mp hmem
    exact Service.plain_callOf (hq.not_batch hn he hresolve hname ht hx' hx) users' _
  | resumes hcall _ => exact hq.plain_under_way (Nat.le_of_lt hn) hcall hname ht hx hmem

/-- While the call is under way, nobody else changes what its users own of
its resources. -/
theorem Undisturbed.isOwner_iff (hq : Undisturbed es i k r users) (hi : i < n) (hn : n < k)
    (hother : callerAt es n ≠ some (after es i).nextCall) (hx : x ∈ r.ids) (hu : u ∈ users) :
    (after es (n + 1)).IsOwner r.resourceType x u ↔ (after es n).IsOwner r.resourceType x u := by
  cases he : es[n]? with
  | none => rw [after_of_end he]
  | some e =>
    have hstep := after_succ he
    rw [callerAt_eq he] at hother
    constructor
    · intro hafter
      by_contra hbefore
      obtain ⟨name, c, p, hruns, _⟩ :=
        becomes_owner (sound_after es n) hbefore (hstep ▸ hafter)
      have hcaller := hruns.caller?_eq
      have hname : name ≠ (after es i).nextCall := fun heq => hother (heq ▸ hcaller)
      exact hbefore (hq.no_lock n name hi hn ((callerAt_eq he).trans hcaller) hname x hx u hu hafter)
    · intro hbefore
      by_contra hafter
      have hkept := fun h => hafter (hq.no_unlock n e hi hn he x hx u hu h hbefore)
      rcases ceases_to_own (sound_after es n) hbefore (hstep ▸ hafter) with
        hfrees | hunlocks | ⟨name, rfl, c, hc, _, ht, htaken, _⟩
      · exact hkept (.inl hfrees)
      · exact hkept (.inr hunlocks)
      · -- The call that takes a grant back would be a timed batch.
        have hname : name ≠ (after es i).nextCall := fun heq => hother (heq ▸ rfl)
        have hplain := hq.plain_under_way (Nat.le_of_lt hn) hc hname ht hx
          (List.mem_append_left _ htaken)
        rw [hplain.taken_eq] at htaken
        cases htaken

/-! ### Owners and their grants -/

/-- No owner of the resource is without a grant. -/
def CoveredAt (m : Moment) (t : String) (x : Int) : Prop :=
  ∀ b, m.service.blocks.get? t = some b → (b.item x).Covered b.allowMulti

/-- An event leaves it so, if the call that it lets run, should the resource
be one of its own, is a plain one or goes on. -/
theorem covered_step {m : Moment} (h : m.Sound) (hcovered : m.CoveredAt t x)
    (hruns : ∀ {name c p}, Runs m name c p e → c.resourceType = t → x ∈ c.taken ++ c.ids →
      c.Plain ∨ ∃ c', (m.step e).service.calls.get? name = some c') :
    (m.step e).CoveredAt t x := by
  intro b hb
  -- It is enough that the lock is moved without a rollback.
  have hmoved : ∀ {b₁ : Block}, m.service.blocks.get? t = some b₁ → b.allowMulti = b₁.allowMulti →
      ReflTransGen (Item.Move b₁.allowMulti fun _ _ => False) (b₁.item x) (b.item x) →
      (b.item x).Covered b.allowMulti := by
    intro b₁ hb₁ hmulti hmoves
    rw [hmulti]
    exact Item.covered_of_moves hmoves ((h.service.block hb₁).item x) (hcovered b₁ hb₁)
  cases step_cases h e with
  | steady hs =>
    obtain ⟨b₁, hb₁, hsteady⟩ := hs.of_get? hb
    exact hmoved hb₁ hsteady.same.allowMulti_eq ((hsteady.item x).moves _)
  | declared d hd =>
    rw [hd.get?] at hb
    split at hb
    · cases hb
      exact Item.covered_fresh _ _
    · exact hcovered b hb
  | @ran name b₁ b' c p hrun hran =>
    rw [hran.get?] at hb
    split at hb
    · rename_i ht
      cases hb
      refine hmoved (ht ▸ hran.found) hran.run.sameType.allowMulti_eq ?_
      by_cases hmem : x ∈ c.taken ++ c.ids
      · rcases hruns hrun ht.symm hmem with hplain | ⟨c', hc'⟩
        · exact hran.run.moves_plain hran.ready hplain x
        · refine hran.run.moves_apart hran.ready fun hp => ?_
          -- A call that gives up would not be under way afterwards.
          rw [hran.call?, if_pos rfl, hp] at hc'
          cases hc'
      · exact hran.run.moves_apart hran.ready fun _ => hmem
    · exact hcovered b hb

/-- Up to the last run of the call, no owner of its resources is without a
grant. -/
theorem covered_at (hq : Undisturbed es i k r users) (hunder : UnderWay es i k) (hx : x ∈ r.ids)
    (hn : n ≤ k) : (after es n).CoveredAt r.resourceType x := by
  -- From the first event on, since the resource may have had owners before the request.
  induction n with
  | zero => exact fun b hb => nomatch hb
  | succ n ih =>
    have hcovered := ih (Nat.le_of_succ_le hn)
    cases he : es[n]? with
    | none => rwa [after_of_end he]
    | some e =>
      have hsound := sound_after es n
      rw [after_succ he]
      refine covered_step hsound hcovered fun {name c p} hruns ht hmem => ?_
      by_cases hname : name = (after es i).nextCall
      · -- The call itself runs, so it has begun, and is still under way afterwards.
        refine .inr ?_
        have hlt := hruns.name_lt hsound
        rw [← after_succ he] at hlt ⊢
        have hi : i < n + 1 := by
          by_contra hle
          have hmono := nextCall_mono es (Nat.not_lt.mp hle)
          exact absurd (hname ▸ hlt) (Nat.not_lt.mpr hmono)
        rw [hname]
        exact hunder (n + 1) hi hn
      · exact .inl (hq.plain_runs hn he hruns hname ht hx hmem)

end Moment

end Backplane.Lock
