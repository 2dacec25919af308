import Backplane.Proofs.Lock.Grants
import Mathlib.Data.List.Nodup

/-!
# `Backplane.Proofs.Lock.Ledger`: one permit for each outstanding grant

An event that lets a call run grants the call's users a resource if none of
them was an owner before and all of them are afterwards. The grant is
outstanding as long as they all have been owners without a break. In a
history without timed batches, a lock counts exactly the outstanding
grants as held, and they share out its owners: every owner is a user of one
of them, and nobody is a user of two. The main statements:

* `Ledger.shrink`, `Ledger.grow`: how a ledger of the outstanding grants
  goes on when grants end, or one is made.
* `ledger_after`: there is such a ledger at every moment.
* `unlock_clears`, `unlockAll_clears`: an unlock of a shared resource ends
  all grants.
* `permits_accounted`: permits, grants and owners of a lock at every
  moment of a history without timed batches.
-/

set_option autoImplicit false

namespace Backplane.Lock

open Relation (ReflTransGen)

namespace Service

/-- The type is declared for shared grants. -/
def IsShared (s : Service) (t : String) : Prop :=
  ∃ b, s.blocks.get? t = some b ∧ b.allowMulti = true

/-- The resource has no owner, and no grant of it is held. -/
def Cleared (s : Service) (t : String) (x : Int) : Prop :=
  ∃ b, s.blocks.get? t = some b ∧ (b.item x).owners = ∅ ∧ (b.item x).held = 0

variable {s : Service} {t : String} {x y : Int} {p : Party}

/-- An unlock leaves a type with shared grants as it was declared. -/
theorem IsShared.unlock (hs : s.IsShared t) (h : s.Sound) (x : Int) (p : Party) :
    (s.unlock t x p).2.1.IsShared t := by
  obtain ⟨b, hb, hmulti⟩ := hs
  obtain ⟨b', hb', hsteady⟩ := (steady_unlock h t x p).kept hb
  exact ⟨b', hb', hsteady.same.allowMulti_eq.trans hmulti⟩

/-- What an unlock of a shared resource writes: a lock without owners and
grants, or nothing. -/
theorem unlock_shared_cases (h : s.Sound) (hs : s.IsShared t) (x : Int) (p : Party) :
    (∃ e, s.unlock t x p = (.error e, s, [])) ∨
      ∃ b j, s.blocks.get? t = some b ∧ j.owners = ∅ ∧ j.held = 0 ∧
        (s.unlock t x p).2.1.blocks = s.blocks.insert t (b.setItem x j) := by
  obtain ⟨b, hb, hmulti⟩ := hs
  rcases unlock_cases s t x p with he | ⟨b₁, users, i, j, woken, hresolve, _, hrelease, hok⟩
  · exact .inl he
  · have hb₁ := (resolve_ok hresolve).1
    rw [hb] at hb₁
    cases hb₁
    have hunlocks := Item.unlocks_of_release hrelease
    rw [hmulti] at hunlocks
    refine .inr ⟨b, j, hb, ?_⟩
    rw [hok]
    show _ ∧ _ ∧ s.blocks.insert b.name (b.setItem x j) = _
    rw [h.name_eq hb]
    cases hunlocks with
    | one _ hsingle _ _ => cases hsingle
    | all _ _ => exact ⟨rfl, rfl, rfl⟩

/-- An unlock of a shared resource that succeeds ends all grants. -/
theorem unlock_clears (h : s.Sound) (hs : s.IsShared t) (hok : (s.unlock t x p).1 = .ok ()) :
    (s.unlock t x p).2.1.Cleared t x := by
  rcases unlock_shared_cases h hs x p with ⟨e, he⟩ | ⟨b, j, _, howners, hheld, hblocks⟩
  · rw [he] at hok
    cases hok
  · refine ⟨b.setItem x j, ?_, ?_⟩
    · rw [hblocks, Table.get?_insert, if_pos rfl]
    · rw [Block.item_setItem_self]
      exact ⟨howners, hheld⟩

/-- An unlock makes no owner of a shared resource. -/
theorem Cleared.unlock (hc : s.Cleared t y) (h : s.Sound) (hs : s.IsShared t) (x : Int)
    (p : Party) : (s.unlock t x p).2.1.Cleared t y := by
  rcases unlock_shared_cases h hs x p with ⟨e, he⟩ | ⟨b, j, hb, howners, hheld, hblocks⟩
  · rw [he]
    exact hc
  · refine ⟨b.setItem x j, ?_, ?_⟩
    · rw [hblocks, Table.get?_insert, if_pos rfl]
    · rw [Block.item_setItem]
      split
      · exact ⟨howners, hheld⟩
      · obtain ⟨b₁, hb₁, hclear⟩ := hc
        rw [hb] at hb₁
        cases hb₁
        exact hclear

/-- Unlocks of shared resources that have all succeeded end all grants of
each of them. -/
private theorem unlocks_clear (ids : List Int) (acc : Except Error Unit × Service × List CallId)
    (h : acc.2.1.Sound) (hs : acc.2.1.IsShared t)
    (hok : (ids.foldl (unlockStep t p) acc).1 = .ok ()) :
    acc.1 = .ok () ∧ (y ∈ ids ∨ acc.2.1.Cleared t y →
      (ids.foldl (unlockStep t p) acc).2.1.Cleared t y) := by
  induction ids generalizing acc with
  | nil => exact ⟨hok, fun hy => hy.resolve_left List.not_mem_nil⟩
  | cons id rest ih =>
    obtain ⟨hfirst, hrest⟩ := ih (unlockStep t p acc id) (h.steady (steady_unlock h t id p))
      (hs.unlock h id p) hok
    -- The outcome so far is no error, and neither is that of this unlock.
    have hboth : acc.1 = .ok () ∧ (acc.2.1.unlock t id p).1 = .ok () := by
      obtain ⟨outcome, s', woken⟩ := acc
      cases outcome with
      | error e => cases hfirst
      | ok u => exact ⟨rfl, hfirst⟩
    refine ⟨hboth.1, fun hy => hrest ?_⟩
    rcases hy with hy | hclear
    · rcases List.mem_cons.mp hy with rfl | hy
      · exact .inr (unlock_clears h hs hboth.2)
      · exact .inl hy
    · exact .inr (hclear.unlock h hs id p)

/-- So does a list of unlocks that succeeds as a whole. -/
theorem unlockAll_clears {ids : List Int} (h : s.Sound) (hs : s.IsShared t)
    (hok : (s.unlockAll t ids p).1 = .ok ()) (hy : y ∈ ids) :
    (s.unlockAll t ids p).2.1.Cleared t y := by
  rw [unlockAll_eq] at hok ⊢
  split at hok
  · cases hok
  · exact (unlocks_clear ids _ h hs hok).2 (.inl hy)

end Service

namespace Moment

/-- The user is an owner of the resource. -/
def IsOwner (m : Moment) (t : String) (x u : Int) : Prop :=
  ∃ b, m.service.blocks.get? t = some b ∧ u ∈ (b.item x).owners

/-- The event `k` of a history grants users a resource: it lets a call for
them run; none of them is an owner before, and all are afterwards. -/
def Grants (es : List Event) (k : Nat) (t : String) (x : Int) (users : Users) : Prop :=
  ∃ e name c p, es[k]? = some e ∧ Runs (after es k) name c p e ∧ c.resourceType = t ∧
    c.users = users ∧
    ∀ u ∈ users, ¬ (after es k).IsOwner t x u ∧ (after es (k + 1)).IsOwner t x u

/-- The grant that the event `k` made is outstanding after `n` events. -/
structure Outstanding (es : List Event) (n : Nat) (t : String) (x : Int) (k : Nat)
    (users : Users) : Prop where
  lt : k < n
  made : Grants es k t x users
  unbroken : ∀ j, k < j → j ≤ n → ∀ u ∈ users, (after es j).IsOwner t x u

/-- A list of the outstanding grants of a resource, each with the event
that made it. As many grants are outstanding as are held; the owners are
their users; and no user has part in two of them. -/
structure Ledger (es : List Event) (n : Nat) (t : String) (x : Int)
    (grants : List (Nat × Users)) : Prop where
  outstanding : ∀ k users, (k, users) ∈ grants ↔ Outstanding es n t x k users
  ne_nil : ∀ g ∈ grants, g.2.members ≠ []
  disjoint : grants.Pairwise fun g g' => g.2.meets g'.2 = false
  owners : ∀ u, (after es n).IsOwner t x u ↔ ∃ g ∈ grants, u ∈ g.2
  held : ∀ b, (after es n).service.blocks.get? t = some b → (b.item x).held = grants.length

variable {m : Moment} {t : String} {x : Int} {e : Event} {es : List Event} {n k : Nat}
  {users : Users} {grants : List (Nat × Users)}

theorem isOwner_iff {b : Block} (hb : m.service.blocks.get? t = some b) (u : Int) :
    m.IsOwner t x u ↔ u ∈ (b.item x).owners := by
  constructor
  · rintro ⟨b', hb', hu⟩
    rw [hb] at hb'
    cases hb'
    exact hu
  · exact fun hu => ⟨b, hb, hu⟩

theorem not_isOwner_of_none (ha : m.service.blocks.get? t = none) (u : Int) :
    ¬ m.IsOwner t x u := by
  rintro ⟨b, hb, _⟩
  rw [ha] at hb
  cases hb

/-- There is only one lock of a resource whose grants could be counted. -/
theorem held_of_get? {b' : Block} (hb' : m.service.blocks.get? t = some b')
    (hheld : (b'.item x).held = k) (b : Block) (hb : m.service.blocks.get? t = some b) :
    (b.item x).held = k := by
  rw [hb'] at hb
  cases hb
  exact hheld

/-! ### Who is granted something -/

/-- The users of a call that runs fit its type. -/
theorem Runs.fits (h : m.Sound) {name : CallId} {c : Call} {p : Progress}
    (hr : Runs m name c p e) :
    ∃ b, m.service.blocks.get? c.resourceType = some b ∧ Fits b.allowMulti c.users := by
  cases hr with
  | begins r users _ hcall _ hresolve =>
    obtain ⟨b, hresolve⟩ := hresolve
    obtain ⟨hb, hfits, _⟩ := Service.resolve_ok hresolve
    rw [hcall]
    exact ⟨b, hb, hfits⟩
  | resumes hcall _ => exact (h.service.call hcall).fits

/-- An event lets at most one call run. -/
theorem Runs.call_unique {n₁ n₂ : CallId} {c₁ c₂ : Call} {p₁ p₂ : Progress}
    (h₁ : Runs m n₁ c₁ p₁ e) (h₂ : Runs m n₂ c₂ p₂ e) : c₁ = c₂ := by
  cases h₁ with
  | begins r users₁ _ hcall₁ _ hresolve₁ =>
    cases h₂ with
    | begins _ users₂ _ hcall₂ _ hresolve₂ =>
      obtain ⟨b₁, hresolve₁⟩ := hresolve₁
      obtain ⟨b₂, hresolve₂⟩ := hresolve₂
      rw [hresolve₁] at hresolve₂
      cases hresolve₂
      rw [hcall₁, hcall₂]
  | resumes hcall₁ _ =>
    cases h₂ with
    | resumes hcall₂ _ =>
      rw [hcall₁] at hcall₂
      exact Option.some.inj hcall₂

/-- Whom a grant makes an owner. -/
theorem Grants.gained (hg : Grants es k t x users) {u : Int} (hu : u ∈ users) :
    ¬ (after es k).IsOwner t x u ∧ (after es (k + 1)).IsOwner t x u := by
  obtain ⟨_, _, _, _, _, _, _, _, hnew⟩ := hg
  exact hnew u hu

/-- A grant has users. -/
theorem Grants.ne_nil (hg : Grants es k t x users) : users.members ≠ [] := by
  obtain ⟨e, name, c, p, _, hruns, _, husers, _⟩ := hg
  obtain ⟨b, _, hfits⟩ := hruns.fits (sound_after es k)
  exact husers ▸ hfits.ne_nil

/-- On a type for single owners, a grant has one user. -/
theorem Grants.single (hg : Grants es k t x users) (hs : (after es k).Single t) :
    ∃ u, users.members = [u] := by
  obtain ⟨e, name, c, p, _, hruns, ht, husers, _⟩ := hg
  obtain ⟨b, hb, hfits⟩ := hruns.fits (sound_after es k)
  exact husers ▸ hfits.single (hs b (ht ▸ hb))

/-- An event after which nobody is an owner who was not before grants
nothing. -/
theorem not_grants (hsub : ∀ u, (after es (n + 1)).IsOwner t x u → (after es n).IsOwner t x u) :
    ¬ Grants es n t x users := by
  intro hg
  obtain ⟨u, hu⟩ := List.exists_mem_of_ne_nil _ hg.ne_nil
  obtain ⟨hbefore, hafter⟩ := hg.gained hu
  exact hbefore (hsub u hafter)

/-- After one more event those grants are outstanding whose users are all
still owners, and the grant that the event has made. -/
theorem outstanding_succ : Outstanding es (n + 1) t x k users ↔
    (Outstanding es n t x k users ∧ ∀ u ∈ users, (after es (n + 1)).IsOwner t x u) ∨
      (k = n ∧ Grants es n t x users) := by
  constructor
  · rintro ⟨hlt, hmade, hsince⟩
    rcases Nat.lt_succ_iff_lt_or_eq.mp hlt with hlt | rfl
    · exact .inl ⟨⟨hlt, hmade, fun j hkj hj => hsince j hkj (Nat.le_succ_of_le hj)⟩,
        hsince (n + 1) (Nat.lt_succ_of_lt hlt) (Nat.le_refl _)⟩
    · exact .inr ⟨rfl, hmade⟩
  · rintro (⟨⟨hlt, hmade, hsince⟩, hlast⟩ | ⟨rfl, hmade⟩)
    · refine ⟨Nat.lt_succ_of_lt hlt, hmade, fun j hkj hj => ?_⟩
      rcases Nat.le_succ_iff.mp hj with hj | rfl
      · exact hsince j hkj hj
      · exact hlast
    · refine ⟨Nat.lt_succ_self k, hmade, fun j hkj hj u hu => ?_⟩
      -- The only moment since the grant is the one right after it.
      obtain rfl : j = k + 1 := Nat.le_antisymm hj hkj
      exact (hmade.gained hu).2

/-! ### How a ledger goes on -/

/-- No grant is made, and some may end. -/
theorem Ledger.shrink (hl : Ledger es n t x grants) {kept : List (Nat × Users)}
    (hsub : kept.Sublist grants)
    (hgained : ∀ u, (after es (n + 1)).IsOwner t x u → (after es n).IsOwner t x u)
    (hmem : ∀ g ∈ grants, g ∈ kept ↔ ∀ u ∈ g.2, (after es (n + 1)).IsOwner t x u)
    (howners : ∀ u, (after es (n + 1)).IsOwner t x u → ∃ g ∈ kept, u ∈ g.2)
    (hheld : ∀ b, (after es (n + 1)).service.blocks.get? t = some b →
      (b.item x).held = kept.length) : Ledger es (n + 1) t x kept where
  outstanding k users := by
    rw [outstanding_succ, ← hl.outstanding]
    constructor
    · intro hk
      have hg := hsub.subset hk
      exact .inl ⟨hg, (hmem _ hg).mp hk⟩
    · rintro (⟨hg, hkept⟩ | ⟨_, hmade⟩)
      · exact (hmem _ hg).mpr hkept
      · exact absurd hmade (not_grants hgained)
  ne_nil g hg := hl.ne_nil g (hsub.subset hg)
  disjoint := hl.disjoint.sublist hsub
  owners u := ⟨howners u, fun ⟨g, hg, hu⟩ => (hmem g (hsub.subset hg)).mp hg u hu⟩
  held := hheld

/-- The owners stay as they are. -/
theorem Ledger.same (hl : Ledger es n t x grants)
    (hsame : ∀ u, (after es (n + 1)).IsOwner t x u ↔ (after es n).IsOwner t x u)
    (hheld : ∀ b, (after es (n + 1)).service.blocks.get? t = some b →
      (b.item x).held = grants.length) : Ledger es (n + 1) t x grants := by
  refine hl.shrink (.refl grants) (fun u => (hsame u).mp) (fun g hg => ?_)
    (fun u hu => (hl.owners u).mp ((hsame u).mp hu)) hheld
  refine ⟨fun _ u hu => ?_, fun _ => hg⟩
  exact (hsame u).mpr ((hl.owners u).mpr ⟨g, hg, hu⟩)

/-- The type stays as it is. -/
theorem Ledger.untouched (hl : Ledger es n t x grants)
    (hget : (after es (n + 1)).service.blocks.get? t = (after es n).service.blocks.get? t) :
    Ledger es (n + 1) t x grants := by
  refine hl.same (fun u => ?_) fun b hb => hl.held b (hget ▸ hb)
  unfold IsOwner
  rw [hget]

/-- All grants end. -/
theorem Ledger.cleared (hl : Ledger es n t x grants)
    (hnone : ∀ u, ¬ (after es (n + 1)).IsOwner t x u)
    (hheld : ∀ b, (after es (n + 1)).service.blocks.get? t = some b → (b.item x).held = 0) :
    Ledger es (n + 1) t x [] := by
  refine hl.shrink (List.nil_sublist grants) (fun u hu => absurd hu (hnone u))
    (fun g hg => ⟨fun hmem => absurd hmem List.not_mem_nil, fun hkept => ?_⟩)
    (fun u hu => absurd hu (hnone u)) hheld
  -- A grant that is kept would have a user, who would still be an owner.
  obtain ⟨u, hu⟩ := List.exists_mem_of_ne_nil _ (hl.ne_nil g hg)
  exact absurd (hkept u hu) (hnone u)

/-- A grant is made. -/
theorem Ledger.grow (hl : Ledger es n t x grants) (hmade : ∀ us, Grants es n t x us ↔ us = users)
    (hfree : ∀ u ∈ users, ¬ (after es n).IsOwner t x u)
    (howners : ∀ u, (after es (n + 1)).IsOwner t x u ↔ (after es n).IsOwner t x u ∨ u ∈ users)
    (hheld : ∀ b, (after es (n + 1)).service.blocks.get? t = some b →
      (b.item x).held = grants.length + 1) : Ledger es (n + 1) t x ((n, users) :: grants) where
  outstanding k us := by
    rw [outstanding_succ, ← hl.outstanding, hmade, List.mem_cons, Prod.mk.injEq]
    constructor
    · rintro (hnew | hg)
      · exact .inr hnew
      · exact .inl ⟨hg, fun u hu => (howners u).mpr (.inl ((hl.owners u).mpr ⟨_, hg, hu⟩))⟩
    · exact fun hk => hk.elim (fun hg => .inr hg.1) .inl
  ne_nil g hg := by
    rcases List.mem_cons.mp hg with rfl | hg
    · exact ((hmade users).mpr rfl).ne_nil
    · exact hl.ne_nil g hg
  disjoint := by
    refine List.pairwise_cons.mpr ⟨fun g hg => ?_, hl.disjoint⟩
    -- Whoever has part in an old grant was an owner before.
    rw [Bool.eq_false_iff]
    intro hmeets
    obtain ⟨u, hu, hold⟩ := (Roster.meets_iff _ _).mp hmeets
    exact hfree u hu ((hl.owners u).mpr ⟨g, hg, hold⟩)
  owners u := by
    rw [howners u, hl.owners u, List.exists_mem_cons_iff, or_comm]
  held := hheld

/-- Grants for one user each, of which no two are for the same user, are as
many as their users. -/
theorem length_of_singles {owners : Users} (hone : ∀ g ∈ grants, ∃ u, g.2.members = [u])
    (hdisjoint : grants.Pairwise fun g g' => g.2.meets g'.2 = false)
    (howners : ∀ u, u ∈ owners ↔ ∃ g ∈ grants, u ∈ g.2) (hnodup : owners.members.Nodup) :
    owners.members.length = grants.length := by
  have hflat : (grants.flatMap fun g => g.2.members).Nodup := by
    refine List.nodup_flatMap.mpr ⟨fun g hg => ?_, hdisjoint.imp fun hmeets u hu hu' => ?_⟩
    · obtain ⟨u, hu⟩ := hone g hg
      rw [hu]
      exact List.nodup_singleton u
    · exact Bool.eq_false_iff.mp hmeets ((Roster.meets_iff _ _).mpr ⟨u, hu, hu'⟩)
  have hperm : owners.members.Perm (grants.flatMap fun g => g.2.members) :=
    (List.perm_ext_iff_of_nodup hnodup hflat).mpr fun u => (howners u).trans List.mem_flatMap.symm
  have hlen : grants.map (fun g => g.2.members.length) = grants.map fun _ => 1 :=
    List.map_congr_left fun g hg => by
      obtain ⟨u, hu⟩ := hone g hg
      rw [hu, List.length_singleton]
  rw [hperm.length_eq, List.length_flatMap, hlen, List.map_const', List.sum_replicate_nat,
    Nat.mul_one]

/-- On a type for single owners, the grants of those end who cease to be
owners. -/
theorem Ledger.freed (hl : Ledger es n t x grants) (hs : (after es n).Single t) {b' : Block}
    (hb' : (after es (n + 1)).service.blocks.get? t = some b')
    (hgained : ∀ u, (after es (n + 1)).IsOwner t x u → (after es n).IsOwner t x u)
    (hnodup : (b'.item x).owners.members.Nodup)
    (hheld : (b'.item x).held = (b'.item x).owners.members.length) :
    ∃ kept, Ledger es (n + 1) t x kept := by
  have hone : ∀ g ∈ grants, ∃ u, g.2.members = [u] := fun g hg => by
    have hout := (hl.outstanding g.1 g.2).mp hg
    exact hout.made.single (single_before (Nat.le_of_lt hout.lt) hs)
  -- With one user each, a grant is kept as a whole if its user is still an owner.
  let kept := grants.filter fun g => g.2.meets (b'.item x).owners
  have hmem : ∀ g, g ∈ kept ↔ g ∈ grants ∧ g.2.meets (b'.item x).owners = true := fun g =>
    List.mem_filter
  have howners : ∀ u, u ∈ (b'.item x).owners ↔ ∃ g ∈ kept, u ∈ g.2 := by
    intro u
    constructor
    · intro hu
      obtain ⟨g, hg, hug⟩ := (hl.owners u).mp (hgained u ((isOwner_iff hb' u).mpr hu))
      exact ⟨g, (hmem g).mpr ⟨hg, (Roster.meets_iff _ _).mpr ⟨u, hug, hu⟩⟩, hug⟩
    · rintro ⟨g, hg, hug⟩
      obtain ⟨hg, hmeets⟩ := (hmem g).mp hg
      obtain ⟨v, hv, hown⟩ := (Roster.meets_iff _ _).mp hmeets
      obtain ⟨w, hw⟩ := hone g hg
      change u ∈ g.2.members at hug
      rw [hw, List.mem_singleton] at hug hv
      rwa [hug, ← hv]
  have hlen := length_of_singles (fun g hg => hone g ((hmem g).mp hg).1)
    (hl.disjoint.sublist List.filter_sublist) howners hnodup
  refine ⟨kept, hl.shrink List.filter_sublist hgained (fun g hg => ?_) (fun u hu => ?_) ?_⟩
  · -- The one user of a grant is an owner, or the grant ends.
    obtain ⟨w, hw⟩ := hone g hg
    rw [hmem, Roster.meets_iff, hw]
    constructor
    · rintro ⟨_, v, hv, hown⟩ u hu
      change u ∈ g.2.members at hu
      rw [hw, List.mem_singleton] at hu
      rw [List.mem_singleton] at hv
      rw [hu, ← hv]
      exact (isOwner_iff hb' v).mpr hown
    · intro hall
      have hmem : w ∈ g.2.members := hw ▸ List.mem_singleton_self w
      exact ⟨hg, w, List.mem_singleton_self w, (isOwner_iff hb' w).mp (hall w hmem)⟩
  · exact (howners u).mp ((isOwner_iff hb' u).mp hu)
  · exact held_of_get? hb' (hheld.trans hlen)

/-! ### Every event -/

/-- A change while no call runs ends grants as a whole. -/
theorem Ledger.steady (hl : Ledger es n t x grants) {freed : String → Int → Int → Prop}
    (hs : Service.Steady freed (after es n).service (after es (n + 1)).service)
    (hexact : (after es (n + 1)).Exact) : ∃ kept, Ledger es (n + 1) t x kept := by
  cases hb : (after es n).service.blocks.get? t with
  | none =>
    exact ⟨grants, hl.untouched ((hs.absent hb).trans hb.symm)⟩
  | some b =>
    obtain ⟨b', hb', hsteady⟩ := hs.kept hb
    have hitem := hsteady.item x
    -- Shared grants end all together; those of single owners may end one by one.
    cases hmulti : b.allowMulti with
    | true =>
      rcases hitem.ended hmulti with ⟨howners, hheld⟩ | ⟨howners, hheld⟩
      · refine ⟨grants, hl.same (fun u => ?_) (held_of_get? hb' (hheld.trans (hl.held b hb)))⟩
        rw [isOwner_iff hb', isOwner_iff hb, howners]
      · refine ⟨[], hl.cleared (fun u => ?_) (held_of_get? hb' hheld)⟩
        rw [isOwner_iff hb', howners]
        exact List.not_mem_nil
    | false =>
      have hsingle' : b'.allowMulti = false := hsteady.same.allowMulti_eq.trans hmulti
      have hs : (after es n).Single t := fun b₁ hb₁ => by
        rw [hb] at hb₁
        cases hb₁
        exact hmulti
      refine hl.freed hs hb' (fun u hu => ?_) ?_ ((hexact t b' hb' x).balanced hsingle').held_eq
      · rw [isOwner_iff hb'] at hu
        exact (isOwner_iff hb u).mpr (hitem.owners hmulti u hu)
      · exact (((sound_after es (n + 1)).service.block hb').item x).owners_ascending.nodup

/-- The run of a plain call makes one grant on each id that it locks. -/
theorem Ledger.ran (hl : Ledger es n t x grants) (he : es[n]? = some e) {name : CallId} {c : Call}
    {p : Progress} {b b' : Block} (hruns : Runs (after es n) name c p e) (hplain : c.Plain)
    (hran : Service.Ran name (after es n).now (after es n).service b c p
      (after es (n + 1)).service b') :
    ∃ kept, Ledger es (n + 1) t x kept := by
  by_cases ht : t = c.resourceType
  · have hb : (after es n).service.blocks.get? t = some b := ht ▸ hran.found
    have hb' : (after es (n + 1)).service.blocks.get? t = some b' := by rw [hran.get? t, if_pos ht]
    obtain ⟨granted, hnodup, hfree, hitem⟩ := hran.run.grants hran.ready hplain
    obtain ⟨howners, hheld⟩ := hitem x
    rw [hl.held b hb] at hheld
    have howner : ∀ u, (after es (n + 1)).IsOwner t x u ↔
        (after es n).IsOwner t x u ∨ (x ∈ granted ∧ u ∈ c.users) := by
      intro u
      rw [isOwner_iff hb', isOwner_iff hb]
      exact howners u
    by_cases hx : x ∈ granted
    · simp only [hx, true_and] at howner
      rw [List.count_eq_one_of_mem hnodup hx] at hheld
      have hbefore : ∀ u ∈ c.users, ¬ (after es n).IsOwner t x u := fun u hu hown =>
        Item.not_mem_owners (hfree x hx) hu ((isOwner_iff hb u).mp hown)
      refine ⟨(n, c.users) :: grants, hl.grow (fun us => ⟨?_, ?_⟩) hbefore howner
        (held_of_get? hb' hheld)⟩
      · rintro ⟨e', name', c', p', he', hruns', _, husers, _⟩
        rw [he] at he'
        cases he'
        rw [← husers, hruns.call_unique hruns']
      · rintro rfl
        exact ⟨e, name, c, p, he, hruns, ht.symm, rfl, fun u hu =>
          ⟨hbefore u hu, (howner u).mpr (.inr hu)⟩⟩
    · simp only [hx, false_and, or_false] at howner
      rw [List.count_eq_zero_of_not_mem hx] at hheld
      exact ⟨grants, hl.same howner (held_of_get? hb' hheld)⟩
  · -- The call locks resources of another type.
    have hget := hran.get? t
    rw [if_neg ht] at hget
    exact ⟨grants, hl.untouched hget⟩

/-- A declaration grants nothing. -/
theorem Ledger.declared (hl : Ledger es n t x grants) {d : TypeDecl}
    (hd : Service.Declared d (after es n).service (after es (n + 1)).service) :
    ∃ kept, Ledger es (n + 1) t x kept := by
  by_cases ht : t = d.name
  · have hb' := hd.get? t
    rw [if_pos ht] at hb'
    refine ⟨[], hl.cleared (fun u => ?_) (held_of_get? hb' rfl)⟩
    rw [isOwner_iff hb']
    exact List.not_mem_nil
  · have hget := hd.get? t
    rw [if_neg ht] at hget
    exact ⟨grants, hl.untouched hget⟩

/-- At every moment of a history without timed batches, each resource has a
ledger of its outstanding grants. -/
theorem ledger_after (hes : ∀ e ∈ es, ¬ e.IsTimedBatch) (t : String) (x : Int) (n : Nat) :
    ∃ grants, Ledger es n t x grants := by
  induction n with
  | zero =>
    have hnone : ∀ u, ¬ (after es 0).IsOwner t x u := not_isOwner_of_none rfl
    refine ⟨[], ⟨fun k users => ?_, fun g hg => absurd hg List.not_mem_nil, List.Pairwise.nil,
      fun u => ?_, fun b hb => nomatch hb⟩⟩
    · exact iff_of_false List.not_mem_nil fun h => absurd h.lt (Nat.not_lt_zero k)
    · exact iff_of_false (hnone u) fun ⟨g, hg, _⟩ => List.not_mem_nil hg
  | succ n ih =>
    obtain ⟨grants, hl⟩ := ih
    have hexact := exact_after hes (n + 1)
    cases he : es[n]? with
    | none => exact ⟨grants, hl.untouched (by rw [after_of_end he])⟩
    | some e =>
      have hplain := plain_after hes n
      have hbatch := hes e (List.mem_of_getElem? he)
      have hchange := step_cases (sound_after es n) e
      rw [← after_succ he] at hchange
      cases hchange with
      | steady hs => exact hl.steady hs hexact
      | declared d hd => exact hl.declared hd
      | ran hruns hran => exact hl.ran he hruns (hruns.plain hplain hbatch) hran

/-- Take a lock at any moment of a history without timed batches. Its
permits are those that are available, held, or in the hand of a call that
has not run since. What is held are its outstanding grants, which share
out its owners. It has no owner if and only if nothing is held; an unlock
of a shared resource that succeeds leaves it so. And whatever the next
event is, the lock never has more permits available on the way than a
semaphore can count. -/
theorem permits_accounted (es : List Event) (hes : ∀ e ∈ es, ¬ e.IsTimedBatch) (n : Nat)
    (t : String) (b : Block) (hb : (after es n).service.blocks.get? t = some b) (x : Int) :
    (b.item x).available + (b.item x).held + (b.item x).handed.length = b.maxLocks ∧
    (∃ grants, Ledger es n t x grants ∧ grants.length = (b.item x).held) ∧
    ((b.item x).owners.members = [] ↔ (b.item x).held = 0) ∧
    (b.allowMulti = true →
      (∀ p, ((after es n).service.unlock t x p).1 = .ok () →
        ((after es n).service.unlock t x p).2.1.Cleared t x) ∧
      ∀ ids p, x ∈ ids → ((after es n).service.unlockAll t ids p).1 = .ok () →
        ((after es n).service.unlockAll t ids p).2.1.Cleared t x) ∧
    ∀ b', (after es (n + 1)).service.blocks.get? t = some b' →
      ReflTransGen (Item.SafeMove b.allowMulti) (b.item x) (b'.item x) := by
  have hsound := sound_after es n
  have hexact := exact_after hes n
  obtain ⟨grants, hl⟩ := ledger_after hes t x n
  have hheld := hl.held b hb
  refine ⟨?_, ⟨grants, hl, hheld.symm⟩, ?_, fun hmulti => ⟨fun p => ?_, fun ids p hx hok => ?_⟩,
    fun b' hb' => ?_⟩
  · rw [(hexact t b hb x).permits_eq]
    exact ((hsound.service.block hb).item x).capacity_eq
  · rw [hheld, List.length_eq_zero_iff]
    constructor
    · intro hnone
      -- A grant would have a user, and that user would be an owner.
      refine List.eq_nil_iff_forall_not_mem.mpr fun g hg => ?_
      obtain ⟨u, hu⟩ := List.exists_mem_of_ne_nil _ (hl.ne_nil g hg)
      have hown : u ∈ (b.item x).owners.members :=
        (isOwner_iff hb u).mp ((hl.owners u).mpr ⟨g, hg, hu⟩)
      rw [hnone] at hown
      cases hown
    · rintro rfl
      refine List.eq_nil_iff_forall_not_mem.mpr fun u hu => ?_
      obtain ⟨g, hg, _⟩ := (hl.owners u).mp ((isOwner_iff hb u).mpr hu)
      cases hg
  · exact Service.unlock_clears hsound.service ⟨b, hb, hmulti⟩
  · exact Service.unlockAll_clears hsound.service ⟨b, hb, hmulti⟩ hok hx
  · cases he : es[n]? with
    | none =>
      rw [after_of_end he, hb] at hb'
      cases hb'
      exact .refl
    | some e =>
      rw [after_succ he] at hb'
      exact safe_step hsound (plain_after hes n) hexact hb hb' x

/-- Two calls whose users overlap wait for the same resource. An unlock
hands each of them a permit, and the second one gives its permit back. -/
def overlappingHistory : List Event :=
  [.declare ⟨"ward", 2, true⟩,
   .request ⟨"ward", [1], .many [10, 20], none⟩,
   .request ⟨"ward", [1], .one 30, none⟩,
   .request ⟨"ward", [1], .many [40, 50], none⟩,
   .request ⟨"ward", [1], .many [50, 60], some 100⟩,
   .unlock "ward" 1 (.one 20),
   .collect,
   .wake 2,
   .wake 3]

/-- One grant is outstanding in the end, and one permit is available. -/
theorem permits_accounted_overlapping :
    ∃ b grants, (after overlappingHistory 9).service.blocks.get? "ward" = some b ∧
      (b.item 1).available = 1 ∧ (b.item 1).owners.members = [40, 50] ∧
      (b.item 1).available + (b.item 1).held + (b.item 1).handed.length = b.maxLocks ∧
      Ledger overlappingHistory 9 "ward" 1 grants ∧ grants.length = 1 := by
  have hfound : ∃ b, (after overlappingHistory 9).service.blocks.get? "ward" = some b ∧
      (b.item 1).available = 1 ∧ (b.item 1).owners.members = [40, 50] ∧ (b.item 1).held = 1 :=
    ⟨_, rfl, rfl, rfl, rfl⟩
  obtain ⟨b, hb, havailable, howners, hheld⟩ := hfound
  obtain ⟨hpermits, ⟨grants, hl, hlen⟩, _⟩ :=
    permits_accounted overlappingHistory (by decide) 9 "ward" b hb 1
  exact ⟨b, grants, hb, havailable, howners, hpermits, hl, hlen.trans hheld⟩

end Moment

end Backplane.Lock
