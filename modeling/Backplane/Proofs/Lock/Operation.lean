import Backplane.Proofs.Lock.Service

/-!
# `Backplane.Proofs.Lock.Operation`: the operations of a service

Each operation takes one of the three ways in which a service changes.
The main statements:

* `steady_unlock`, `steady_unlockAll`: unlocking runs no call, and on a
  type for single owners only the user who unlocks ceases to be an owner,
  of the ids that are unlocked.
* `unlock_of_owner`: whoever is an owner can unlock, and this wakes the
  calls in front of the queue.
* `steady_collectGarbage`: nor does collecting, and no ownership ends.
* `begin_cases`, `resume_cases`: a call that begins or is woken runs, or
  nothing happens.
-/

set_option autoImplicit false

namespace Backplane.Lock

/-! ### Unlocking one lock -/

namespace Item

/-- An unlock for users ends grants of a lock. -/
inductive Unlocks (shared : Bool) (users : Users) (i : Item) : Item → Prop where
  | one (u : Int) (hshared : shared = false) (hu : u ∈ users.members) (howns : u ∈ i.owners) :
      Unlocks shared users i
        ({ i with owners := i.owners.erase u, held := i.held - 1 }.release 1).1
  | all (hshared : shared = true) (howns : i.isOwnedByAny users = true) :
      Unlocks shared users i ({ i with owners := ∅, held := 0 }.release i.held).1

theorem unlocks_of_release {shared : Bool} {users : Users} {i j : Item} {woken : List CallId}
    (h : (if shared then i.releaseShared? users else i.releaseFirst? users) = some (j, woken)) :
    Unlocks shared users i j := by
  cases shared with
  | true =>
    rw [if_pos rfl] at h
    unfold releaseShared? at h
    split at h
    · rename_i howns
      cases h
      exact .all rfl howns
    · cases h
  | false =>
    rw [if_neg (by decide)] at h
    obtain ⟨u, hu, hrelease⟩ := List.exists_of_findSome?_eq_some h
    unfold releaseOwner? at hrelease
    split at hrelease
    · rename_i howns
      cases hrelease
      exact .one u rfl hu howns
    · cases hrelease

/-- An unlock touches no queue and frees nobody but a user who unlocks. -/
theorem Unlocks.steady {shared : Bool} {users : Users} {i j : Item} {freed : Int → Prop}
    (h : Unlocks shared users i j) (hfreed : shared = false → ∀ u ∈ users.members, freed u) :
    i.Steady shared freed j := by
  cases h with
  | one u hshared hu howns =>
    refine ⟨fun _ => .single (.unlock u hshared howns), fun n => ?_, fun htrue => ?_,
      fun _ v hv => ?_, fun _ v hv => ?_⟩
    · exact (queue_release _ 1).mem_iff
    · rw [hshared] at htrue
      cases htrue
    · rw [release_owners, Roster.mem_erase] at hv
      exact hv.1
    · rw [release_owners, Roster.mem_erase]
      by_cases hvu : v = u
      · exact .inr (hvu ▸ hfreed hshared u hu)
      · exact .inl ⟨hv, hvu⟩
  | all hshared howns =>
    have hnot : shared ≠ false := by
      rw [hshared]
      decide
    exact ⟨fun _ => .single (.unlockShared users hshared howns),
      fun _ => (queue_release _ _).mem_iff, fun _ => .inr ⟨rfl, rfl⟩,
      fun hsingle => absurd hsingle hnot, fun hsingle => absurd hsingle hnot⟩

/-- So does the collection of a free lock. -/
theorem steady_collect (shared : Bool) (freed : Int → Prop) {i : Item} (hfree : i.isFree = true)
    (hqueue : i.queue = []) : i.Steady shared freed (fresh i.capacity) := by
  refine ⟨fun _ => .single (.collect hfree hqueue), fun n => ?_, fun _ => .inr ⟨rfl, rfl⟩,
    fun _ u hu => ?_, fun _ u hu => ?_⟩
  · rw [hqueue]
    exact Iff.rfl
  · cases hu
  · exact absurd hu (not_mem_owners_of_isFree hfree u)

end Item

namespace Service

variable {s : Service} {name : CallId}

/-! ### Who asks -/

theorem block_ok {t : String} {b : Block} : s.block t = .ok b ↔ s.blocks.get? t = some b := by
  unfold block
  cases s.blocks.get? t with
  | none =>
    constructor
    · intro h
      cases h
    · intro h
      cases h
  | some b' =>
    constructor
    · intro h
      cases h
      rfl
    · intro h
      cases h
      rfl

theorem multiBlock_ok {t : String} {b : Block} (h : s.multiBlock t = .ok b) :
    s.blocks.get? t = some b ∧ b.allowMulti = true := by
  unfold multiBlock at h
  cases hb : s.block t with
  | error e =>
    rw [hb] at h
    cases h
  | ok b' =>
    rw [hb] at h
    change (if b'.allowMulti then Except.ok b' else .error (Error.multiNotAllowed t)) = .ok b at h
    split at h
    · rename_i hmulti
      cases h
      exact ⟨block_ok.mp hb, hmulti⟩
    · cases h

theorem userSet_ok {us : List Int} {users : Users} (h : userSet us = .ok users) :
    users.members ≠ [] := by
  cases us with
  | nil => cases h
  | cons u us =>
    cases h
    intro hnil
    have hmem : u ∈ (Roster.ofList (u :: us)).members :=
      (Roster.mem_ofList (u :: us) u).mpr List.mem_cons_self
    rw [hnil] at hmem
    cases hmem

/-- A party that may ask names a declared type, and users who fit it; on a
type for single owners it is one user. -/
theorem resolve_ok {t : String} {p : Party} {b : Block} {users : Users}
    (h : s.resolve t p = .ok (b, users)) :
    s.blocks.get? t = some b ∧ Fits b.allowMulti users ∧
      (b.allowMulti = false → ∃ u, p = .one u ∧ users.members = [u]) := by
  cases p with
  | one u =>
    change (do return (← s.block t, Roster.ofList [u])) = Except.ok (b, users) at h
    cases hb : s.block t with
    | error e =>
      rw [hb] at h
      cases h
    | ok b' =>
      rw [hb] at h
      cases h
      exact ⟨block_ok.mp hb, ⟨List.cons_ne_nil u [], fun _ => ⟨u, rfl⟩⟩, fun _ => ⟨u, rfl, rfl⟩⟩
  | many us =>
    change (do return (← s.multiBlock t, ← userSet us)) = Except.ok (b, users) at h
    cases hb : s.multiBlock t with
    | error e =>
      rw [hb] at h
      cases h
    | ok b' =>
      cases hus : userSet us with
      | error e =>
        rw [hb, hus] at h
        cases h
      | ok users' =>
        rw [hb, hus] at h
        cases h
        obtain ⟨hget, hmulti⟩ := multiBlock_ok hb
        have hshared : b.allowMulti ≠ false := by
          rw [hmulti]
          decide
        exact ⟨hget, ⟨userSet_ok hus, fun hsingle => absurd hsingle hshared⟩,
          fun hsingle => absurd hsingle hshared⟩

/-- A single user may ask for any type that there is. -/
theorem resolve_one {t : String} {b : Block} (hb : s.blocks.get? t = some b) (u : Int) :
    s.resolve t (.one u) = .ok (b, Roster.ofList [u]) := by
  show (do return (← s.block t, Roster.ofList [u])) = _
  rw [block_ok.mpr hb]
  rfl

/-! ### Unlocking -/

/-- An unlock fails and changes nothing, or it ends grants of one lock. -/
theorem unlock_cases (s : Service) (t : String) (id : Int) (p : Party) :
    (∃ e, s.unlock t id p = (.error e, s, [])) ∨
      ∃ b users i j woken, s.resolve t p = .ok (b, users) ∧ b.items.get? id = some i ∧
        (if b.allowMulti then i.releaseShared? users else i.releaseFirst? users) = some (j, woken) ∧
        s.unlock t id p = (.ok (), s.setItem b id j, woken) := by
  unfold unlock unlockItem
  cases hresolve : s.resolve t p with
  | error e => exact .inl ⟨e, rfl⟩
  | ok found =>
    obtain ⟨b, users⟩ := found
    cases hget : b.items.get? id with
    | none =>
      refine .inl ⟨.notLocked b.name id, ?_⟩
      simp only [hget]
    | some i =>
      cases hrelease : if b.allowMulti then i.releaseShared? users else i.releaseFirst? users with
      | none =>
        simp only [hget, hrelease]
        cases i.owners.isEmpty with
        | true => exact .inl ⟨_, rfl⟩
        | false => exact .inl ⟨_, rfl⟩
      | some released =>
        obtain ⟨j, woken⟩ := released
        refine .inr ⟨b, users, i, j, woken, rfl, hget, hrelease, ?_⟩
        simp only [hget, hrelease]

/-- Unlocking an id for users is a change while no call runs. -/
theorem steady_unlockItem (h : s.Sound) {t : String} {b : Block} {users : Users} {id : Int}
    {s' : Service} {woken : List CallId} {freed : String → Int → Int → Prop}
    (hb : s.blocks.get? t = some b)
    (hfreed : b.allowMulti = false → ∀ u ∈ users.members, freed t id u)
    (hu : s.unlockItem b users id = .ok (s', woken)) : Steady freed s s' := by
  unfold unlockItem at hu
  split at hu
  · cases hu
  · rename_i i hget
    split at hu
    · rename_i j _ hrelease
      cases hu
      have hunlocks : Item.Unlocks b.allowMulti users (b.item id) j := by
        rw [Block.item_of_get? hget]
        exact Item.unlocks_of_release hrelease
      show Steady freed s { s with blocks := s.blocks.insert b.name (b.setItem id j) }
      rw [h.name_eq hb]
      exact steady_insert hb (Block.steady_setItem (hunlocks.steady hfreed))
    · split at hu <;> cases hu

/-- An unlock runs no call and frees no owner but the one who asks. -/
theorem steady_unlock (h : s.Sound) (t : String) (id : Int) (p : Party) :
    Steady (fun t' x u => t' = t ∧ x = id ∧ p = .one u) s (s.unlock t id p).2.1 := by
  unfold unlock
  split
  · exact Steady.refl _ s
  · rename_i b users hresolve
    obtain ⟨hb, _, hone⟩ := resolve_ok hresolve
    split
    · exact Steady.refl _ s
    · rename_i s' woken hunlock
      refine steady_unlockItem h hb (fun hsingle u hu => ⟨rfl, rfl, ?_⟩) hunlock
      obtain ⟨v, hp, husers⟩ := hone hsingle
      rw [husers, List.mem_singleton] at hu
      rw [hp, hu]

/-- One unlock of a list, after some others. -/
def unlockStep (t : String) (p : Party) (acc : Except Error Unit × Service × List CallId)
    (id : Int) : Except Error Unit × Service × List CallId :=
  (firstError acc.1 (acc.2.1.unlock t id p).1, (acc.2.1.unlock t id p).2.1,
    acc.2.2 ++ (acc.2.1.unlock t id p).2.2)

/-- A list of unlocks is refused as a whole, or each is tried. -/
theorem unlockAll_eq (s : Service) (t : String) (ids : List Int) (p : Party) :
    s.unlockAll t ids p = match s.resolve t p with
      | .error e => (.error e, s, [])
      | .ok _ => ids.foldl (unlockStep t p) (.ok (), s, []) := rfl

/-- The unlocks of a list, one after the other. -/
private theorem steady_unlocks (t : String) (p : Party) (all : List Int) (ids : List Int)
    (hids : ids ⊆ all) (acc : Except Error Unit × Service × List CallId) (h : acc.2.1.Sound) :
    Steady (fun t' x u => t' = t ∧ x ∈ all ∧ p = .one u) acc.2.1
      (ids.foldl (unlockStep t p) acc).2.1 := by
  induction ids generalizing acc with
  | nil => exact Steady.refl _ acc.2.1
  | cons id rest ih =>
    -- An unlock that fails is passed over, and the rest is unlocked all the same.
    have hfirst := steady_unlock h t id p
    refine Steady.trans (hfirst.mono ?_)
      (ih (List.subset_of_cons_subset hids) (unlockStep t p acc id) (h.steady hfirst))
    rintro t' x u ⟨ht, hx, hp⟩
    exact ⟨ht, hx ▸ hids List.mem_cons_self, hp⟩

/-- So is a list of unlocks. -/
theorem steady_unlockAll (h : s.Sound) (t : String) (ids : List Int) (p : Party) :
    Steady (fun t' x u => t' = t ∧ x ∈ ids ∧ p = .one u) s (s.unlockAll t ids p).2.1 := by
  rw [unlockAll_eq]
  split
  · exact Steady.refl _ s
  · exact steady_unlocks t p ids ids (List.Subset.refl ids) (.ok (), s, []) h

/-- An owner can unlock. On a type for single owners this releases one
permit, and on a type with shared grants as many as are held; they go to
the calls in front of the queue. -/
theorem unlock_of_owner {t : String} {b : Block} {x u : Int} {i : Item}
    (hb : s.blocks.get? t = some b) (hi : b.items.get? x = some i) (hu : u ∈ i.owners) :
    (s.unlock t x (.one u)).1 = .ok () ∧
      (s.unlock t x (.one u)).2.2 = i.waiters.take (if b.allowMulti then i.held else 1) := by
  have hresolve := resolve_one hb u
  unfold unlock unlockItem
  cases hmulti : b.allowMulti with
  | true =>
    have howned : i.isOwnedByAny (Roster.ofList [u]) = true :=
      (Item.isOwnedByAny_iff i _).mpr ⟨u, List.mem_singleton_self u, hu⟩
    have hrelease : i.releaseShared? (Roster.ofList [u])
        = some ({ i with owners := ∅, held := 0 }.release i.held) := by
      unfold Item.releaseShared?
      rw [if_pos howned]
    simp only [hresolve, hi, hmulti, hrelease, if_true]
    exact ⟨trivial, rfl⟩
  | false =>
    have hrelease : i.releaseFirst? (Roster.ofList [u])
        = some ({ i with owners := i.owners.erase u, held := i.held - 1 }.release 1) := by
      unfold Item.releaseFirst? Item.releaseOwner?
      rw [Roster.members_ofList_singleton, List.findSome?_cons, if_pos hu]
    simp only [hresolve, hi, hmulti, hrelease, Bool.false_eq_true, if_false]
    exact ⟨trivial, rfl⟩

/-- An owner can unlock. -/
theorem unlock_ok {t : String} {b : Block} {id u : Int} (hb : s.blocks.get? t = some b)
    (howns : u ∈ (b.item id).owners) : (s.unlock t id (.one u)).1 = .ok () := by
  cases hget : b.items.get? id with
  | none =>
    rw [Block.item_of_get?_eq_none hget] at howns
    cases howns
  | some i =>
    rw [Block.item_of_get? hget] at howns
    exact (unlock_of_owner hb hget howns).1

/-! ### Collecting -/

/-- A lock that no call needs has nobody in its queue. -/
theorem queue_of_not_isNeeded (h : s.Sound) {t : String} {b : Block}
    (hb : s.blocks.get? t = some b) {id : Int} (hneeded : s.isNeeded t id = false) :
    (b.item id).queue = [] := by
  by_contra hne
  -- Whoever is in the queue is a call that waits for this very id.
  obtain ⟨n, hn⟩ := List.exists_mem_of_ne_nil _ hne
  obtain ⟨c, hc, htype, hhead⟩ := (h.place hb id n).mp hn
  have hneeds : c.needs t id = true := by
    unfold Call.needs
    rw [htype, hhead]
    simp
  have hany : s.isNeeded t id = true :=
    List.any_eq_true.mpr ⟨c, Table.mem_values_of_get? hc, hneeds⟩
  rw [hneeded] at hany
  cases hany

/-- What a look-up of a lock finds after a collection. -/
theorem items_get?_survivors (h : s.Sound) {t : String} {b : Block}
    (hb : s.blocks.get? t = some b) (x : Int) :
    (s.survivors b).items.get? x
      = (b.items.get? x).filter fun i => s.isNeeded b.name x || !i.isFree :=
  Table.get?_filter (h.block hb).ascending _ x

/-- What a look-up of a type finds after a collection. -/
theorem blocks_get?_collectGarbage (s : Service) (t : String) :
    s.collectGarbage.2.blocks.get? t = (s.blocks.get? t).map s.survivors :=
  Table.get?_mapValues s.blocks s.survivors t

/-- What is left of a lock after a collection. -/
theorem item_survivors (h : s.Sound) {t : String} {b : Block} (hb : s.blocks.get? t = some b)
    (x : Int) : (s.survivors b).item x = b.item x ∨
      ((s.survivors b).item x = .fresh (b.item x).capacity ∧ (b.item x).isFree = true ∧
        (b.item x).queue = []) := by
  have hblock := h.block hb
  have hget := items_get?_survivors h hb x
  cases hi : b.items.get? x with
  | none =>
    refine .inl ?_
    rw [hi, Option.filter_none] at hget
    rw [Block.item_of_get?_eq_none hget, Block.item_of_get?_eq_none hi]
    rfl
  | some i =>
    have hitem := Block.item_of_get? hi
    rw [hi, Option.filter_some] at hget
    cases hkeep : s.isNeeded b.name x || !i.isFree with
    | true =>
      rw [if_pos hkeep] at hget
      exact .inl ((Block.item_of_get? hget).trans hitem.symm)
    | false =>
      rw [hkeep, if_neg (by decide)] at hget
      rw [Bool.or_eq_false_iff, Bool.not_eq_false'] at hkeep
      rw [h.name_eq hb] at hkeep
      refine .inr ⟨?_, hitem ▸ hkeep.2, queue_of_not_isNeeded h hb hkeep.1⟩
      rw [Block.item_of_get?_eq_none hget, (hblock.item x).capacity_eq]
      rfl

/-- A collection on one type. -/
theorem steady_survivors (h : s.Sound) {t : String} {b : Block} (hb : s.blocks.get? t = some b)
    (freed : Int → Int → Prop) : b.Steady freed (s.survivors b) := by
  refine ⟨⟨rfl, rfl, rfl, fun ha => ha.filter _⟩, fun x => ?_⟩
  rcases item_survivors h hb x with heq | ⟨heq, hfree, hqueue⟩
  · rw [heq]
    exact .refl _
  · rw [heq]
    exact Item.steady_collect b.allowMulti (freed x) hfree hqueue

/-- A collection runs no call and ends no ownership. -/
theorem steady_collectGarbage (h : s.Sound) :
    Steady (fun _ _ _ => False) s s.collectGarbage.2 := by
  have hget := blocks_get?_collectGarbage s
  refine ⟨fun ha => ha.mapValues s.survivors, rfl, fun {t} ha => ?_, fun {t b} hb => ?_⟩
  · rw [hget t, ha]
    rfl
  · refine ⟨s.survivors b, ?_, steady_survivors h hb _⟩
    rw [hget t, hb]
    rfl

/-! ### Calls -/

/-- Storing a run of a call. -/
theorem ran_record (h : s.Sound) {now : Nat} {b : Block} {c : Call}
    (hb : s.blocks.get? c.resourceType = some b) (hready : b.Ready name c)
    (hown : ∀ c', s.calls.get? name = some c' → c' = c)
    {step : Progress × Block × List CallId} (hrun : b.Run name now c step.1 step.2.1) :
    Ran name now s b c step.1 (s.record name step).2.1 step.2.1 := by
  obtain ⟨p, b', woken⟩ := step
  refine ⟨hb, hready, fun hc => hown _ hc, hrun, ?_, ?_⟩
  · show s.blocks.insert b'.name b' = _
    rw [hrun.sameType.name_eq, h.name_eq hb]
  · cases p <;> rfl

/-- A call that begins runs, or is refused. -/
theorem begin_cases (h : s.Sound) (hnew : s.calls.get? name = none) (r : Request) (now : Nat) :
    (∃ e, s.begin name r now = (.error e, s, [])) ∨
      ∃ users b p b', s.resolve r.resourceType r.party = .ok (b, users) ∧
        (s.begin name r now).1 = .ok p ∧
        Ran name now s b (callOf r users now) p (s.begin name r now).2.1 b' := by
  unfold begin
  cases hresolve : s.resolve r.resourceType r.party with
  | error e => exact .inl ⟨e, rfl⟩
  | ok found =>
    obtain ⟨b, users⟩ := found
    obtain ⟨hb, hfits, _⟩ := resolve_ok hresolve
    have hown : ∀ c', s.calls.get? name = some c' → c' = callOf r users now := by
      intro c' hc'
      rw [hnew] at hc'
      cases hc'
    have horder : ((callOf r users now).taken ++ (callOf r users now).ids).Pairwise (· < ·) :=
      Roster.ascending_ofList r.ids
    have hready : b.Ready name (callOf r users now) := h.ready hb hfits horder hown
    -- Only calls under way are in queues, and the name is not given yet.
    have habsent : ∀ x, name ∉ (b.item x).queue := by
      intro x hx
      obtain ⟨c, hc, _⟩ := (h.place hb x name).mp hx
      rw [hnew] at hc
      cases hc
    have hrun := Block.proceed_run b name (callOf r users now) now hready.nodup habsent
    exact .inr ⟨users, b, _, _, rfl, rfl, ran_record h hb hready hown hrun⟩

/-- A call that is woken runs, or waits on because it was woken for
nothing. -/
theorem resume_cases (h : s.Sound) {c : Call} (hc : s.calls.get? name = some c) (now : Nat) :
    s.resume name now = (.waiting c, s, []) ∨
      ∃ b b', Ran name now s b c (s.resume name now).1 (s.resume name now).2.1 b' := by
  obtain ⟨hids, horder, b, hb, hfits⟩ := h.call hc
  have hown : ∀ c', s.calls.get? name = some c' → c' = c := by
    intro c' hc'
    rw [hc] at hc'
    exact (Option.some.inj hc').symm
  have hready : b.Ready name c := h.ready hb hfits horder hown
  have heq : s.resume name now = s.record name (b.resume name c now) := by
    unfold resume
    simp only [hc, hb]
  rw [heq]
  rcases Block.resume_run b name c now hids hready.nodup with hsame | hrun
  · -- The call and its locks are stored again as they were.
    refine .inl ?_
    rw [hsame]
    show (Progress.waiting c, ({ blocks := s.blocks.insert b.name b, calls := s.calls.insert name c }
      : Service), ([] : List CallId)) = _
    rw [h.name_eq hb, Table.insert_get? h.blocks_ascending hb,
      Table.insert_get? h.calls_ascending hc]
  · exact .inr ⟨b, _, ran_record h hb hready hown hrun⟩

/-- Waking a call that is over does nothing. -/
theorem resume_of_get?_eq_none (hc : s.calls.get? name = none) (now : Nat) :
    s.resume name now = (.done false, s, []) := by
  unfold resume
  rw [hc]

end Service

end Backplane.Lock
