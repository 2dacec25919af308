import Backplane.Proofs.Lock.Block

/-!
# `Backplane.Proofs.Lock.Run`: what a run of a call does to the locks

`Backplane.Proofs.Lock.Block` cuts the run of a call into its start, the
ids that it passes, and its end. Each theorem here follows these three
parts and states one effect of the whole run:

* `Run.moves`: every lock changes by moves of `Item.Move`.
* `Run.queue`: the call leaves its place in a queue and takes at most one
  new place, and nobody else's place is touched.
* `Run.call`: a call that waits again is the same call further on.
* `Run.owners`: whom the run makes an owner, and from whom a call that
  gives up takes the ownership. A call that gives up leaves no trace of
  the grants of this very run, so only the grants that it had noted
  before can be missed by anybody.
-/

set_option autoImplicit false

namespace Backplane.Lock.Block

open Relation (ReflTransGen)

/-- What is known of a call and of the locks of its type when a run
starts: the locks are in order, the ids of the call ascend, and the call
is in no queue but that of the id it waits for. -/
structure Ready (name : CallId) (b : Block) (c : Call) : Prop where
  fits : Fits b.allowMulti c.users
  sound : ∀ x, (b.item x).Sound b.maxLocks
  order : (c.taken ++ c.ids).Pairwise (· < ·)
  place : ∀ x, name ∈ (b.item x).queue → c.ids.head? = some x

variable {name : CallId} {now : Nat} {b b₀ b₁ b' : Block} {c : Call} {users : Users}
  {ids passed rest granted granted₀ : List Int} {p : Progress}

theorem Ready.nodup (h : Ready name b c) : (c.taken ++ c.ids).Nodup :=
  h.order.imp fun hlt => ne_of_lt hlt

/-- A call has not to lock again what it has noted. -/
theorem Ready.not_mem_ids (h : Ready name b c) {x : Int} (hx : x ∈ c.taken) : x ∉ c.ids :=
  fun hids => (List.nodup_append.mp h.nodup).2.2 x hx x hids rfl

theorem Starts.sameType (h : Starts name b c b₀ granted₀ rest) : SameType b b₀ := by
  cases h with
  | begins _ => exact SameType.refl b
  | handBack _ _ _ => exact sameType_setItem b _ _
  | accept _ _ _ => exact sameType_setItem b _ _
  | leave _ _ => exact sameType_setItem b _ _

theorem Passes.sameType (h : Passes users b ids granted b') : SameType b b' := by
  induction h with
  | nil b => exact SameType.refl b
  | skip _ _ ih => exact (sameType_setItem _ _ _).trans ih
  | take _ _ _ ih => exact (sameType_setItem _ _ _).trans ih

theorem Ends.sameType (h : Ends name now b c rest p b') : SameType b b' := by
  cases h with
  | finish => exact SameType.refl b
  | giveUp _ hundone => exact hundone.same
  | wait _ => exact sameType_setItem b _ _

/-- A run changes locks and not their type. -/
theorem Run.sameType (h : Run name now b c p b') : SameType b b' := by
  cases h with
  | intro start pass stop => exact start.sameType.trans (pass.sameType.trans stop.sameType)

/-! ### The ids of the three parts -/

/-- What is granted at the start and what is left come from the ids of
the call, in their order. -/
theorem Starts.sublist (h : Starts name b c b₀ granted₀ rest) :
    (granted₀ ++ rest).Sublist c.ids := by
  cases h with
  | begins _ => exact List.Sublist.refl c.ids
  | handBack hids _ _ => exact hids ▸ List.sublist_cons_self _ _
  | accept hids _ _ => exact hids ▸ List.Sublist.refl _
  | leave hids _ => exact hids ▸ List.Sublist.refl _

theorem Passes.sublist (h : Passes users b ids granted b') : granted.Sublist ids := by
  induction h with
  | nil _ => exact List.Sublist.refl []
  | skip _ _ ih => exact ih.cons _
  | take _ _ _ ih => exact ih.cons_cons _

/-- All ids that a run grants, and those that are left, come from the ids
of the call, in their order. -/
theorem sublist_ids (start : Starts name b c b₀ granted₀ (passed ++ rest))
    (pass : Passes c.users b₀ passed granted b₁) :
    (granted₀ ++ granted ++ rest).Sublist c.ids := by
  have hpass : (granted ++ rest).Sublist (passed ++ rest) := pass.sublist.append (.refl rest)
  rw [List.append_assoc]
  exact ((List.Sublist.refl granted₀).append hpass).trans start.sublist

theorem Starts.frame (h : Starts name b c b₀ granted₀ rest) {x : Int} (hx : x ∉ c.ids) :
    b₀.item x = b.item x := by
  have hne : ∀ {id : Int} {ids : List Int}, c.ids = id :: ids → x ≠ id := fun hids heq =>
    hx (by rw [hids, heq]; exact List.mem_cons_self)
  cases h with
  | begins _ => rfl
  | handBack hids _ _ => exact item_setItem_ne b _ (hne hids)
  | accept hids _ _ => exact item_setItem_ne b _ (hne hids)
  | leave hids _ => exact item_setItem_ne b _ (hne hids)

theorem Passes.frame (h : Passes users b ids granted b') {x : Int} (hx : x ∉ ids) :
    b'.item x = b.item x := by
  induction h with
  | nil _ => rfl
  | skip _ _ ih => rw [ih (List.not_mem_of_not_mem_cons hx), item_setItem_item]
  | take _ _ _ ih =>
    rw [ih (List.not_mem_of_not_mem_cons hx)]
    exact item_setItem_ne _ _ (List.ne_of_not_mem_cons hx)

/-- Until it stops, a run touches only locks of ids that are still to be
locked. -/
theorem frame_of_not_mem_ids (start : Starts name b c b₀ granted₀ (passed ++ rest))
    (pass : Passes c.users b₀ passed granted b₁) {x : Int} (hx : x ∉ c.ids) :
    b₁.item x = b.item x := by
  have hpassed : x ∉ passed := fun hmem =>
    hx (start.sublist.subset (List.mem_append_right _ (List.mem_append_left _ hmem)))
  rw [pass.frame hpassed, start.frame hx]

/-! ### Queues -/

/-- After the start the call is in no queue, and all others stay where
they are. -/
theorem Starts.queue (hready : Ready name b c) (h : Starts name b c b₀ granted₀ rest) (x : Int)
    (d : CallId) : d ∈ (b₀.item x).queue ↔ d ∈ (b.item x).queue ∧ d ≠ name := by
  -- Away from the id that it waits for, the call was in no queue before.
  have haway : ∀ {id : Int} {ids : List Int} {i : Item}, c.ids = id :: ids → x ≠ id →
      (d ∈ ((b.setItem id i).item x).queue ↔ d ∈ (b.item x).queue ∧ d ≠ name) := by
    intro id ids i hids hne
    rw [item_setItem_ne b i hne]
    refine ⟨fun hd => ⟨hd, fun heq => hne ?_⟩, fun hd => hd.1⟩
    have hplace := hready.place x (heq ▸ hd)
    rw [hids, List.head?_cons, Option.some.injEq] at hplace
    exact hplace.symm
  cases h with
  | begins habsent => exact ⟨fun hd => ⟨hd, fun heq => habsent x (heq ▸ hd)⟩, fun hd => hd.1⟩
  | @handBack id _ hids hhanded _ =>
    by_cases hx : x = id
    · subst hx
      rw [item_setItem_self, (Item.queue_release _ 1).mem_iff]
      exact Item.mem_queue_unhand (hready.sound x).queue_nodup hhanded d
    · exact haway hids hx
  | @accept id _ hids hhanded _ =>
    by_cases hx : x = id
    · subst hx
      rw [item_setItem_self]
      exact Item.mem_queue_unhand (hready.sound x).queue_nodup hhanded d
    · exact haway hids hx
  | @leave id _ hids hwaits =>
    by_cases hx : x = id
    · subst hx
      rw [item_setItem_self]
      exact Item.mem_queue_leave hwaits d
    · exact haway hids hx

/-- Locking without waiting touches no queue. -/
theorem Passes.queue (h : Passes users b ids granted b') (x : Int) :
    (b'.item x).queue = (b.item x).queue := by
  induction h with
  | nil _ => rfl
  | skip _ _ ih => rw [ih, item_setItem_item]
  | @take b _ id _ _ _ _ _ ih =>
    rw [ih, item_setItem]
    split
    · rename_i hx
      rw [hx]
      rfl
    · rfl

/-- Only a call that waits joins a queue. -/
theorem Ends.queue (h : Ends name now b c rest p b') (x : Int) (d : CallId) :
    d ∈ (b'.item x).queue ↔
      d ∈ (b.item x).queue ∨ (d = name ∧ ∃ c', p = .waiting c' ∧ c'.ids.head? = some x) := by
  cases h with
  | finish => exact ⟨.inl, fun hd => hd.elim (fun h => h) fun ⟨_, _, hp, _⟩ => nomatch hp⟩
  | giveUp _ hundone =>
    have hperm : (b'.item x).queue.Perm (b.item x).queue := by
      rw [hundone.item_eq x]
      split
      · exact Item.queue_revoke _ _
      · exact List.Perm.refl _
    rw [hperm.mem_iff]
    exact ⟨.inl, fun hd => hd.elim (fun h => h) fun ⟨_, _, hp, _⟩ => nomatch hp⟩
  | @wait id ids _ =>
    by_cases hx : x = id
    · subst hx
      rw [item_setItem_self, Item.mem_queue_enqueue]
      refine or_congr_right ⟨fun hd => ⟨hd, _, rfl, rfl⟩, fun hd => hd.1⟩
    · rw [item_setItem_ne b _ hx]
      refine ⟨.inl, fun hd => hd.elim (fun h => h) ?_⟩
      rintro ⟨_, c', hp, hhead⟩
      cases hp
      rw [List.head?_cons, Option.some.injEq] at hhead
      exact absurd hhead.symm hx

/-- The queues after a run: everybody else stays, and the call itself is in
the queue of the id that it waits for, if it waits. -/
theorem Run.queue (hready : Ready name b c) (h : Run name now b c p b') (x : Int) (d : CallId) :
    d ∈ (b'.item x).queue ↔ (d ∈ (b.item x).queue ∧ d ≠ name) ∨
      (d = name ∧ ∃ c', p = .waiting c' ∧ c'.ids.head? = some x) := by
  cases h with
  | intro start pass stop => rw [stop.queue x d, pass.queue x, start.queue hready x d]

/-! ### The call itself -/

/-- A call that waits again has the same users, type and deadline, and it
has only moved ids from those to be locked to those that it was granted. -/
theorem Run.call (h : Run name now b c p b') {c' : Call} (hp : p = .waiting c') :
    c'.resourceType = c.resourceType ∧ c'.users = c.users ∧ c'.deadline = c.deadline ∧
      c'.ids ≠ [] ∧ (c'.taken ++ c'.ids).Sublist (c.taken ++ c.ids) ∧
      c.taken <+: c'.taken ∧ (c.deadline = none → c'.taken = c.taken) := by
  cases h with
  | @intro _ b₁ _ granted₀ granted passed rest _ start pass stop =>
    have hsub := sublist_ids start pass
    cases stop with
    | finish => cases hp
    | giveUp _ _ => cases hp
    | wait _ =>
      cases hp
      refine ⟨Call.resourceType_noteGrants c _, Call.users_noteGrants c _,
        Call.deadline_noteGrants c _, List.cons_ne_nil _ _, ?_, ?_, ?_⟩
      · show ((c.noteGrants _).taken ++ _).Sublist _
        rw [Call.taken_noteGrants]
        split
        · rw [List.append_assoc]
          exact (List.Sublist.refl c.taken).append hsub
        · exact (List.Sublist.refl c.taken).append ((List.sublist_append_right _ _).trans hsub)
      · show c.taken <+: (c.noteGrants _).taken
        rw [Call.taken_noteGrants]
        split
        · exact List.prefix_append _ _
        · exact List.prefix_rfl
      · intro hnone
        show (c.noteGrants _).taken = c.taken
        rw [Call.taken_noteGrants, hnone]
        rfl

/-! ### Owners -/

/-- The start of a run makes owners of nobody but the call's users, at an
id that none of them owned. -/
theorem Starts.owners (h : Starts name b c b₀ granted₀ rest) :
    (∀ x ∈ granted₀, (b.item x).isOwnedByAny c.users = false) ∧
      ∀ x u, u ∈ (b₀.item x).owners ↔
        u ∈ (b.item x).owners ∨ (x ∈ granted₀ ∧ u ∈ c.users) := by
  -- A call that only leaves the queue of a lock changes no owner.
  have hkeep : ∀ {id : Int} {i : Item}, i.owners = (b.item id).owners → ∀ x u,
      (u ∈ ((b.setItem id i).item x).owners ↔
        u ∈ (b.item x).owners ∨ (x ∈ ([] : List Int) ∧ u ∈ c.users)) := by
    intro id i hi x u
    rw [item_setItem]
    split
    · rename_i hx
      rw [hi, hx]
      simp
    · simp
  cases h with
  | begins _ => exact ⟨by simp, by simp⟩
  | handBack _ _ _ => exact ⟨by simp, hkeep rfl⟩
  | @accept id _ _ _ hnew =>
    refine ⟨fun x hx => List.mem_singleton.mp hx ▸ hnew, fun x u => ?_⟩
    rw [item_setItem]
    split
    · rename_i hx
      subst hx
      rw [Item.owners_grant, List.mem_singleton]
      exact or_congr_right ⟨fun hu => ⟨rfl, hu⟩, fun hu => hu.2⟩
    · rename_i hx
      rw [List.mem_singleton]
      exact ⟨.inl, fun hu => hu.elim (fun h => h) fun h => absurd h.1 hx⟩
  | leave _ _ => exact ⟨by simp, hkeep rfl⟩

/-- So do the ids that it passes. -/
theorem Passes.owners (hnodup : ids.Nodup) (h : Passes users b ids granted b') :
    (∀ x ∈ granted, (b.item x).isOwnedByAny users = false) ∧
      ∀ x u, u ∈ (b'.item x).owners ↔ u ∈ (b.item x).owners ∨ (x ∈ granted ∧ u ∈ users) := by
  induction h with
  | nil _ => exact ⟨by simp, by simp⟩
  | skip _ _ ih =>
    obtain ⟨hfree, howners⟩ := ih hnodup.of_cons
    simp only [item_setItem_item] at hfree howners
    exact ⟨hfree, howners⟩
  | @take b b' id ids granted hnew _ rest ih =>
    obtain ⟨hnot, htail⟩ := List.nodup_cons.mp hnodup
    obtain ⟨hfree, howners⟩ := ih htail
    -- What is granted later are other ids, so this one is told apart by `hne`.
    have hne : ∀ x ∈ granted, x ≠ id := fun x hx heq => hnot (heq ▸ rest.sublist.subset hx)
    refine ⟨fun x hx => ?_, fun x u => ?_⟩
    · rcases List.mem_cons.mp hx with rfl | hx
      · exact hnew
      · have hfree := hfree x hx
        rwa [item_setItem_ne b _ (hne x hx)] at hfree
    · rw [howners x u, item_setItem]
      by_cases hx : x = id
      · subst hx
        have hlater : x ∉ granted := fun hmem => hne x hmem rfl
        rw [if_pos rfl, Item.owners_grant]
        simp [hlater]
      · simp [hx]

/-- The owners when a run stops: those of before, and the call's users
wherever they were granted something. -/
theorem owners_before_end (hready : Ready name b c)
    (start : Starts name b c b₀ granted₀ (passed ++ rest))
    (pass : Passes c.users b₀ passed granted b₁) :
    (∀ x ∈ granted₀ ++ granted, (b.item x).isOwnedByAny c.users = false) ∧
      ∀ x u, u ∈ (b₁.item x).owners ↔
        u ∈ (b.item x).owners ∨ (x ∈ granted₀ ++ granted ∧ u ∈ c.users) := by
  have hids : (granted₀ ++ (passed ++ rest)).Nodup :=
    (hready.nodup.sublist (List.sublist_append_right _ _)).sublist start.sublist
  have hpassed : passed.Nodup :=
    hids.sublist ((List.sublist_append_left _ _).trans (List.sublist_append_right _ _))
  obtain ⟨hfree₀, howners₀⟩ := start.owners
  obtain ⟨hfree, howners⟩ := pass.owners hpassed
  refine ⟨fun x hx => ?_, fun x u => ?_⟩
  · rcases List.mem_append.mp hx with hx | hx
    · exact hfree₀ x hx
    · -- Nobody whom the start makes an owner of `x` is one of the users.
      rw [Bool.eq_false_iff]
      intro htrue
      obtain ⟨u, hu, hown⟩ := (Item.isOwnedByAny_iff _ _).mp htrue
      exact Item.not_mem_owners (hfree x hx) hu ((howners₀ x u).mpr (.inl hown))
  · rw [howners x u, howners₀ x u, List.mem_append, or_assoc, or_and_right]

/-- Whom a run makes an owner, and whom it takes the ownership from. Either
the call goes on and its users own some more of its ids; or it gives up,
and then its users lose exactly the ids whose grants it had noted. -/
theorem Run.owners (hready : Ready name b c) (h : Run name now b c p b') :
    (∃ granted, (∀ x ∈ granted, x ∈ c.ids ∧ (b.item x).isOwnedByAny c.users = false) ∧
      (∀ x u, u ∈ (b'.item x).owners ↔
        u ∈ (b.item x).owners ∨ (x ∈ granted ∧ u ∈ c.users)) ∧
      p ≠ .done false ∧
      ∀ c', p = .waiting c' → c.deadline.isSome = true → c'.taken = c.taken ++ granted) ∨
    (p = .done false ∧ c.deadline.isSome = true ∧
      ∀ x u, u ∈ (b'.item x).owners ↔
        u ∈ (b.item x).owners ∧ ¬ (x ∈ c.taken ∧ u ∈ c.users)) := by
  cases h with
  | @intro _ b₁ _ granted₀ granted passed rest _ start pass stop =>
    obtain ⟨hfree, howners⟩ := owners_before_end hready start pass
    have hmem : ∀ x ∈ granted₀ ++ granted, x ∈ c.ids := fun x hx =>
      (sublist_ids start pass).subset (List.mem_append_left _ hx)
    cases stop with
    | finish =>
      refine .inl ⟨granted₀ ++ granted, fun x hx => ⟨hmem x hx, hfree x hx⟩, howners, ?_, ?_⟩
      · exact fun hp => nomatch hp
      · exact fun _ hp => nomatch hp
    | wait _ =>
      refine .inl ⟨granted₀ ++ granted, fun x hx => ⟨hmem x hx, hfree x hx⟩, fun x u => ?_, ?_, ?_⟩
      · rw [← howners x u, item_setItem]
        split
        · rename_i hx
          rw [hx]
          rfl
        · exact Iff.rfl
      · exact fun hp => nomatch hp
      · intro c' hp hdeadline
        cases hp
        show (c.noteGrants _).taken = _
        rw [Call.taken_noteGrants, if_pos hdeadline]
    | giveUp hlate hundone =>
      -- A call that is late has a deadline, so it has noted all its grants.
      have hdeadline := Call.isSome_of_isLate_noteGrants hlate
      refine .inr ⟨rfl, hdeadline, fun x u => ?_⟩
      rw [hundone.item_eq x, Call.taken_noteGrants, if_pos hdeadline, Call.users_noteGrants]
      by_cases hx : x ∈ c.taken ++ (granted₀ ++ granted)
      · rw [if_pos hx, Item.revoke_owners, Roster.mem_diff, howners x u]
        rcases List.mem_append.mp hx with hx | hx
        · simp only [hx, true_and]
          constructor
          · rintro ⟨hown | hnew, hu⟩
            · exact ⟨hown, hu⟩
            · exact absurd hnew.2 hu
          · exact fun hown => ⟨.inl hown.1, hown.2⟩
        · -- A grant of this run: none of the users was an owner before.
          have hbefore : ∀ u ∈ c.users, u ∉ (b.item x).owners := fun u hu =>
            Item.not_mem_owners (hfree x hx) hu
          constructor
          · rintro ⟨hown | hnew, hu⟩
            · exact ⟨hown, fun h => hu h.2⟩
            · exact absurd hnew.2 hu
          · exact fun hown => ⟨.inl hown.1, fun hu => hbefore u hu hown.1⟩
      · rw [if_neg hx, howners x u]
        rw [List.mem_append, not_or] at hx
        simp [hx.1, hx.2]

/-! ### Moves -/

section Moves

variable {revocable : Item → Users → Prop}

theorem Starts.moves (hready : Ready name b c) (h : Starts name b c b₀ granted₀ rest) (x : Int) :
    ReflTransGen (Item.Move b.allowMulti revocable) (b.item x) (b₀.item x) := by
  have hone : ∀ {id : Int} {i : Item}, Item.Move b.allowMulti revocable (b.item id) i →
      ReflTransGen (Item.Move b.allowMulti revocable) (b.item x) ((b.setItem id i).item x) := by
    intro id i hmove
    rw [item_setItem]
    split
    · rename_i hx
      rw [hx]
      exact .single hmove
    · exact .refl
  cases h with
  | begins _ => exact .refl
  | handBack _ hhanded _ => exact hone (.handBack name hhanded)
  | accept _ hhanded hnew => exact hone (.accept name c.users hready.fits hhanded hnew)
  | leave _ hwaits => exact hone (.leave name hwaits)

theorem Passes.moves (hfits : Fits b.allowMulti users) (h : Passes users b ids granted b')
    (x : Int) : ReflTransGen (Item.Move b.allowMulti revocable) (b.item x) (b'.item x) := by
  induction h with
  | nil _ => exact .refl
  | skip _ _ ih =>
    have hrest := ih hfits
    rwa [item_setItem_item] at hrest
  | @take b b' id _ _ hnew hfree _ ih =>
    refine .trans ?_ (ih hfits)
    rw [item_setItem]
    split
    · rename_i hx
      rw [hx]
      exact .single (.pass users hfits hfree hnew)
    · exact .refl

theorem Ends.moves (hfits : Fits b.allowMulti c.users) (habsent : ∀ x, name ∉ (b.item x).queue)
    (h : Ends name now b c rest p b') (x : Int)
    (hrevocable : p = .done false → x ∈ c.taken → revocable (b.item x) c.users) :
    ReflTransGen (Item.Move b.allowMulti revocable) (b.item x) (b'.item x) := by
  cases h with
  | finish => exact .refl
  | giveUp _ hundone =>
    rw [hundone.item_eq x]
    split
    · rename_i hx
      exact .single (.revoke c.users hfits (hrevocable rfl hx))
    · exact .refl
  | @wait id _ hbusy =>
    rw [item_setItem]
    split
    · rename_i hx
      rw [hx]
      exact .single (.enqueue name hbusy (habsent id))
    · exact .refl

/-- The moves of the three parts, one after the other. -/
theorem moves_of_parts (hready : Ready name b c)
    (start : Starts name b c b₀ granted₀ (passed ++ rest))
    (pass : Passes c.users b₀ passed granted b₁)
    (stop : Ends name now b₁ (c.noteGrants (granted₀ ++ granted)) rest p b') (x : Int)
    (hrevocable : p = .done false → x ∈ (c.noteGrants (granted₀ ++ granted)).taken →
      revocable (b₁.item x) c.users) :
    ReflTransGen (Item.Move b.allowMulti revocable) (b.item x) (b'.item x) := by
  have hsame₀ := start.sameType.allowMulti_eq
  have hsame₁ := (start.sameType.trans pass.sameType).allowMulti_eq
  have hfits₀ : Fits b₀.allowMulti c.users := hsame₀ ▸ hready.fits
  have hfits₁ : Fits b₁.allowMulti (c.noteGrants (granted₀ ++ granted)).users := by
    rw [hsame₁, Call.users_noteGrants]
    exact hready.fits
  -- Should the call join a queue at the end, it is in no other by then.
  have habsent : ∀ y, name ∉ (b₁.item y).queue := by
    intro y hmem
    rw [pass.queue y, start.queue hready y name] at hmem
    exact hmem.2 rfl
  have hmoves₁ : ReflTransGen (Item.Move b₀.allowMulti revocable) (b₀.item x) (b₁.item x) :=
    pass.moves hfits₀ x
  have hmoves₂ : ReflTransGen (Item.Move b₁.allowMulti revocable) (b₁.item x) (b'.item x) :=
    stop.moves hfits₁ habsent x (by rwa [Call.users_noteGrants])
  rw [hsame₀] at hmoves₁
  rw [hsame₁] at hmoves₂
  exact (start.moves hready x).trans (hmoves₁.trans hmoves₂)

/-- A run changes each lock by moves. The rollbacks among them are
allowed if a rollback for the call's users is allowed wherever one of
them is an owner, and, should the call give up, also on each id whose
grant it had noted before. -/
theorem Run.moves (hready : Ready name b c) (h : Run name now b c p b')
    (howned : ∀ i : Item, i.isOwnedByAny c.users = true → revocable i c.users)
    (hnoted : p = .done false → ∀ x ∈ c.taken, revocable (b.item x) c.users) (x : Int) :
    ReflTransGen (Item.Move b.allowMulti revocable) (b.item x) (b'.item x) := by
  cases h with
  | @intro b₀ b₁ _ granted₀ granted passed rest _ start pass stop =>
    refine moves_of_parts hready start pass stop x fun hp hx => ?_
    by_cases htaken : x ∈ c.taken
    · -- The run has not touched this lock so far.
      rw [frame_of_not_mem_ids start pass (hready.not_mem_ids htaken)]
      exact hnoted hp x htaken
    · -- The run itself has granted the id, and its users own the lock by now.
      have hnew : x ∈ granted₀ ++ granted := by
        rw [Call.taken_noteGrants] at hx
        split at hx
        · exact (List.mem_append.mp hx).resolve_left htaken
        · exact absurd hx htaken
      obtain ⟨u, hu⟩ := List.exists_mem_of_ne_nil _ hready.fits.ne_nil
      obtain ⟨_, howners⟩ := owners_before_end hready start pass
      exact howned _ ((Item.isOwnedByAny_iff _ _).mpr ⟨u, hu, (howners x u).mpr (.inr ⟨hnew, hu⟩)⟩)

/-- A run changes a lock without any rollback, unless the call gives up and
the id is one of its own. -/
theorem Run.moves_apart (hready : Ready name b c) (h : Run name now b c p b') {x : Int}
    (hapart : p = .done false → x ∉ c.taken ++ c.ids) :
    ReflTransGen (Item.Move b.allowMulti revocable) (b.item x) (b'.item x) := by
  cases h with
  | @intro b₀ b₁ _ granted₀ granted passed rest _ start pass stop =>
    refine moves_of_parts hready start pass stop x fun hp hx => absurd ?_ (hapart hp)
    -- Whatever the call has noted by then is one of its ids.
    rw [Call.taken_noteGrants] at hx
    split at hx
    · refine (List.mem_append.mp hx).elim (fun hold => List.mem_append_left _ hold) fun hnew => ?_
      have hids := (sublist_ids start pass).subset (List.mem_append_left _ hnew)
      exact List.mem_append_right _ hids
    · exact List.mem_append_left _ hx

end Moves

/-- Only a call whose deadline has come gives up. -/
theorem Run.isLate (h : Run name now b c (.done false) b') : c.isLate now = true := by
  cases h with
  | intro start pass stop =>
    cases stop with
    | giveUp hlate _ =>
      unfold Call.isLate at hlate ⊢
      rwa [Call.deadline_noteGrants] at hlate

/-- What a call that gives up leaves of a lock whose grant it had noted:
one rollback of the lock as it was before the run. -/
theorem Run.item_of_giveUp (hready : Ready name b c) (h : Run name now b c p b')
    (hp : p = .done false) {x : Int} (hx : x ∈ c.taken) :
    b'.item x = ((b.item x).revoke c.users).1 := by
  cases h with
  | @intro _ b₁ _ granted₀ granted passed rest _ start pass stop =>
    cases stop with
    | finish => cases hp
    | wait _ => cases hp
    | giveUp hlate hundone =>
      have hdeadline := Call.isSome_of_isLate_noteGrants hlate
      have hmem : x ∈ (c.noteGrants (granted₀ ++ granted)).taken := by
        rw [Call.taken_noteGrants, if_pos hdeadline]
        exact List.mem_append_left _ hx
      rw [hundone.item_eq x, if_pos hmem, Call.users_noteGrants,
        frame_of_not_mem_ids start pass (hready.not_mem_ids hx)]

end Backplane.Lock.Block
