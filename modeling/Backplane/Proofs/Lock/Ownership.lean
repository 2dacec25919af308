import Backplane.Proofs.Lock.History

/-!
# `Backplane.Proofs.Lock.Ownership`: how long an ownership lasts

On a type for single owners, an ownership that a call has begun should
last until its user unlocks the resource, or until this very call gives
up. `Kept` states this law for a history. A call with a deadline can break
it, because it notes the ids that it was granted and not the grants: if
its user unlocks one of them and gets it again by another call, then the
first call ends the new ownership when it gives up.

The main statements:

* `kept_iff_no_stale_rollback`: this is the only way to break the law. A
  history keeps it if and only if every call that gives up finds that its
  user has owned each resource, if at all, ever since the grant.
* `not_always_kept`: histories break the law.

The proof needs to know which grant an entry of a call's notes stands for.
A call notes an id at most once, in the step that made its user an owner
(`granted_of_noted`), and it keeps the note as long as it is under way
(`noted_of_granted`).
-/

set_option autoImplicit false

namespace Backplane.Lock

namespace Moment

instance (m : Moment) (t : String) (x u : Int) : Decidable (m.Owns t x u) :=
  match hb : m.service.blocks.get? t with
  | none => .isFalse fun ⟨_, hb', _⟩ => nomatch hb.symm.trans hb'
  | some b =>
    decidable_of_iff (b.allowMulti = false ∧ u ∈ (b.item x).owners)
      ⟨fun h => ⟨b, hb, h⟩, fun ⟨_, hb', h⟩ => Option.some.inj (hb.symm.trans hb') ▸ h⟩

/-- Event `i` of a history lets a call run, and this makes `u` an owner. -/
def GrantedAt (es : List Event) (i : Nat) (name : CallId) (t : String) (x u : Int) : Prop :=
  ∃ e, es[i]? = some e ∧ (after es i).caller? e = some name ∧
    ¬ (after es i).Owns t x u ∧ (after es (i + 1)).Owns t x u

/-- Event `j` of a history lets a call give up. -/
def GivesUpAt (es : List Event) (j : Nat) (name : CallId) : Prop :=
  es[j]? = some (.wake name) ∧ ∃ c, (after es j).service.calls.get? name = some c ∧
    ((after es j).service.resume name (after es j).now).1 = .done false

/-- Event `j` of a history is an unlock by `u` that succeeds on `x`. -/
def UnlocksAt (es : List Event) (j : Nat) (t : String) (x u : Int) : Prop :=
  ∃ e, es[j]? = some e ∧ e.Frees t x u ∧ ((after es j).service.unlock t x (.one u)).1 = .ok ()

/-- An ownership that a call has begun ends only when its user unlocks the
resource or this call gives up. -/
def Kept (t : String) (es : List Event) : Prop :=
  ∀ name x u i j, GrantedAt es i name t x u → i < j →
    (∀ k, i < k → k ≤ j → (after es k).Owns t x u) → ¬ (after es (j + 1)).Owns t x u →
    UnlocksAt es j t x u ∨ GivesUpAt es j name

/-- A user who owns something that was granted to them by a call that gives
up has owned it ever since. -/
def NoStaleRollback (t : String) (es : List Event) : Prop :=
  ∀ name x u i j, GrantedAt es i name t x u → i < j → GivesUpAt es j name →
    (after es j).Owns t x u → ∀ k, i < k → k ≤ j → (after es k).Owns t x u

/-- Whatever holds now and did not hold before has begun to hold at some
moment and has held since. -/
theorem exists_last_start {P : Nat → Prop} {k j : Nat} (hle : k ≤ j) (hk : ¬ P k) (hj : P j) :
    ∃ i, k ≤ i ∧ i < j ∧ ¬ P i ∧ ∀ l, i < l → l ≤ j → P l := by
  induction j, hle using Nat.le_induction with
  | base => exact absurd hj hk
  | succ j hle ih =>
    by_cases hp : P j
    · obtain ⟨i, hki, hij, hi, hsince⟩ := ih hp
      refine ⟨i, hki, Nat.lt_succ_of_lt hij, hi, fun l hl hlj => ?_⟩
      rcases Nat.lt_or_ge j l with hjl | hjl
      · have hlast : l = j + 1 := by omega
        rw [hlast]
        exact hj
      · exact hsince l hl hjl
    · refine ⟨j, hle, Nat.lt_succ_self j, hp, fun l hl hlj => ?_⟩
      have hlast : l = j + 1 := by omega
      rw [hlast]
      exact hj

variable {es : List Event} {i j : Nat} {name : CallId} {t : String} {x u : Int}

/-- An ownership that begins has been begun by a call. -/
theorem grantedAt_of_gained (hbefore : ¬ (after es i).Owns t x u)
    (hafter : (after es (i + 1)).Owns t x u) : ∃ name, GrantedAt es i name t x u := by
  cases he : es[i]? with
  | none =>
    rw [after_of_end he] at hafter
    exact absurd hafter hbefore
  | some e =>
    rw [after_succ he] at hafter
    obtain ⟨name, c, p, hruns, _⟩ := gained (sound_after es i) hbefore hafter
    refine ⟨name, e, he, hruns.caller?_eq, hbefore, ?_⟩
    rwa [after_succ he]

/-- What a call under way has noted it has been granted. -/
theorem granted_of_noted {c : Call} (hc : (after es j).service.calls.get? name = some c)
    (hx : x ∈ c.taken) (hu : u ∈ c.users) (hsingle : (after es j).Single c.resourceType) :
    ∃ i, i < j ∧ GrantedAt es i name c.resourceType x u := by
  induction j generalizing c with
  | zero => cases hc
  | succ j ih =>
    cases he : es[j]? with
    | none =>
      rw [after_of_end he] at hc hsingle
      obtain ⟨i, hij, hgranted⟩ := ih hc hx hu hsingle
      exact ⟨i, Nat.lt_succ_of_lt hij, hgranted⟩
    | some e =>
      rw [after_succ he] at hc hsingle
      rcases noted_before (sound_after es j) hc hx hu hsingle with
        ⟨c₀, hc₀, hx₀, hcontinues⟩ | ⟨hcaller, hbefore, hafter⟩
      · have hbefore := hsingle.before (sound_after es j)
        rw [hcontinues.resourceType_eq] at hbefore ⊢
        obtain ⟨i, hij, hgranted⟩ := ih hc₀ hx₀ (hcontinues.users_eq ▸ hu) hbefore
        exact ⟨i, Nat.lt_succ_of_lt hij, hgranted⟩
      · refine ⟨j, Nat.lt_succ_self j, e, he, hcaller, hbefore, ?_⟩
        rwa [after_succ he]

/-- What a call with a deadline has been granted it has noted, for as long
as it is under way. -/
theorem noted_of_granted {k : Nat} {c : Call} (hgranted : GrantedAt es i name t x u)
    (hik : i < k) (hkj : k ≤ j) (hc : (after es j).service.calls.get? name = some c)
    (hdeadline : c.deadline.isSome = true) :
    ∃ c₀, (after es k).service.calls.get? name = some c₀ ∧ c₀.resourceType = t ∧
      u ∈ c₀.users ∧ x ∈ c₀.taken := by
  obtain ⟨e, he, hcaller, hbefore, hafter⟩ := hgranted
  rw [after_succ he] at hafter
  obtain ⟨name', c₁, p, hruns, _, _, _, hcall, hnotes⟩ := gained (sound_after es i) hbefore hafter
  have hname : name' = name := Option.some.inj (hruns.caller?_eq.symm.trans hcaller)
  subst hname
  have hlt : name' < (after es (i + 1)).nextCall := by
    rw [after_succ he]
    exact hruns.name_lt (sound_after es i)
  -- The call that is under way at `k` is the one that ran at `i`, further on.
  obtain ⟨c₀, hc₀, hlast⟩ := call_at hkj (Nat.lt_of_lt_of_le hlt (nextCall_mono es hik)) hc
  obtain ⟨c', hc', hfirst⟩ := call_at hik hlt hc₀
  rw [after_succ he, hcall] at hc'
  cases p with
  | done granted => cases hc'
  | waiting c'' =>
    cases hc'
    obtain ⟨htype, husers, hnoted⟩ := hnotes c' rfl
    rw [hlast.deadline_eq, hfirst.deadline_eq] at hdeadline
    exact ⟨c₀, hc₀, hfirst.resourceType_eq.trans htype, hfirst.users_eq ▸ husers,
      hfirst.taken_prefix.subset (hnoted hdeadline)⟩

/-- A call under way is not granted again what it has noted. -/
theorem not_grantedAt_of_noted {c : Call} (hc : (after es j).service.calls.get? name = some c)
    (hx : x ∈ c.taken) : ¬ GrantedAt es j name t x u := by
  rintro ⟨e, he, hcaller, hbefore, hafter⟩
  rw [after_succ he] at hafter
  obtain ⟨name', c', p, hruns, _, hids, _⟩ := gained (sound_after es j) hbefore hafter
  have hname : name' = name := Option.some.inj (hruns.caller?_eq.symm.trans hcaller)
  subst hname
  cases hruns with
  | begins r users hnext _ _ =>
    rw [hnext, (sound_after es j).nextCall_free] at hc
    cases hc
  | resumes hcall _ =>
    rw [hc] at hcall
    cases hcall
    have horder := ((sound_after es j).service.call hc).order
    exact absurd ((List.pairwise_append.mp horder).2.2 x hx x hids) (lt_irrefl x)

/-- A call that gives up ends every ownership of an id that it was granted. -/
theorem not_owns_of_givesUp (hgranted : GrantedAt es i name t x u) (hij : i < j)
    (hgives : GivesUpAt es j name) : ¬ (after es (j + 1)).Owns t x u := by
  obtain ⟨he, c, hc, hp⟩ := hgives
  have hdeadline := isSome_deadline_of_gaveUp (sound_after es j) hc hp
  obtain ⟨c₀, hc₀, htype, hu, hx⟩ := noted_of_granted hgranted hij (Nat.le_refl j) hc hdeadline
  rw [hc] at hc₀
  cases hc₀
  rw [after_succ he]
  exact TakesBack.not_owns (sound_after es j) ⟨c, hc, hp, htype, hx, hu⟩

/-- In every history, each ownership of a type for single owners lasts
until its user unlocks the resource or the call that began it gives up, if
and only if no call that gives up finds an ownership that is younger than
its own grant. -/
theorem kept_iff_no_stale_rollback (t : String) (es : List Event) :
    Kept t es ↔ NoStaleRollback t es := by
  constructor
  · intro hkept name x u i j hgranted hij hgives howns k hik hkj
    by_contra hnot
    -- The ownership at `j` has been begun by a grant at some `i'` after `k`.
    obtain ⟨i', hki', hi'j, hbefore, hsince⟩ :=
      exists_last_start (P := fun k => (after es k).Owns t x u) hkj hnot howns
    obtain ⟨name', hgranted'⟩ := grantedAt_of_gained hbefore (hsince _ (Nat.lt_succ_self i') hi'j)
    have hends := not_owns_of_givesUp hgranted hij hgives
    rcases hkept name' x u i' j hgranted' hi'j hsince hends with ⟨e, he, hfrees, _⟩ | hgives'
    · rw [hgives.1] at he
      cases he
      exact hfrees
    · -- It was the same call, but a call is granted an id once.
      have hname := hgives.1.symm.trans hgives'.1
      cases hname
      obtain ⟨he, c, hc, hp⟩ := hgives
      have hdeadline := isSome_deadline_of_gaveUp (sound_after es j) hc hp
      obtain ⟨c₀, hc₀, _, _, hx⟩ :=
        noted_of_granted hgranted (Nat.lt_of_lt_of_le hik hki') (Nat.le_of_lt hi'j) hc hdeadline
      exact not_grantedAt_of_noted hc₀ hx hgranted'
  · intro hfresh name x u i j hgranted hij hsince hends
    have howns := hsince j hij (Nat.le_refl j)
    cases he : es[j]? with
    | none =>
      rw [after_of_end he] at hends
      exact absurd howns hends
    | some e =>
      rw [after_succ he] at hends
      rcases lost (sound_after es j) howns hends with hfrees | ⟨name', rfl, htakes⟩
      · obtain ⟨b, hb, hsingle, hu⟩ := howns
        exact .inl ⟨e, he, hfrees, Service.unlock_ok hb hu⟩
      · obtain ⟨c, hc, hp, htype, hx, hu⟩ := htakes
        have hgives : GivesUpAt es j name' := ⟨he, c, hc, hp⟩
        obtain ⟨i', hi'j, hgranted'⟩ := granted_of_noted hc hx hu (htype ▸ howns.single)
        rw [htype] at hgranted'
        obtain ⟨e₁, he₁, hcaller, hbefore, _⟩ := hgranted
        -- Both grants began the ownership that lasts until `j`.
        rcases Nat.lt_trichotomy i' i with hlt | heq | hgt
        · exact absurd (hfresh name' x u i' j hgranted' hi'j hgives howns i hlt (Nat.le_of_lt hij))
            hbefore
        · obtain ⟨e₂, he₂, hcaller', _⟩ := hgranted'
          rw [heq, he₁] at he₂
          cases he₂
          rw [heq, hcaller] at hcaller'
          cases hcaller'
          exact .inr hgives
        · obtain ⟨_, _, _, hbefore', _⟩ := hgranted'
          exact absurd (hsince i' hgt (Nat.le_of_lt hi'j)) hbefore'

/-- A user unlocks a resource while their call for two resources still
waits, and locks it again; the first call gives up. -/
def relockedHistory : List Event :=
  [.declare ⟨"bed", 1, false⟩,
   .request ⟨"bed", [2], .one 20, none⟩,
   .request ⟨"bed", [1, 2], .one 10, some 100⟩,
   .unlock "bed" 1 (.one 10),
   .request ⟨"bed", [1], .one 10, none⟩,
   .elapse 100,
   .wake 1]

/-- In this history the second call loses what it was granted. -/
theorem not_always_kept : ¬ ∀ (t : String) (es : List Event), Kept t es := by
  intro h
  have hgranted : GrantedAt relockedHistory 4 2 "bed" 1 10 := ⟨_, rfl, rfl, by decide, by decide⟩
  have hsince : ∀ k, 4 < k → k ≤ 6 → (after relockedHistory k).Owns "bed" 1 10 := by
    intro k hk hk'
    have hcases : k = 5 ∨ k = 6 := by omega
    rcases hcases with rfl | rfl <;> decide
  rcases h "bed" relockedHistory 2 1 10 4 6 hgranted (by decide) hsince (by decide) with
    ⟨e, he, hfrees, _⟩ | ⟨he, _⟩
  · cases he
    exact hfrees
  · cases he

end Moment

end Backplane.Lock
