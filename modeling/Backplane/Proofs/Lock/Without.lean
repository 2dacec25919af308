import Backplane.Proofs.Lock.Paired
import Backplane.Proofs.Lock.Single

/-!
# `Backplane.Proofs.Lock.Without`: the same service without one waiting call

A call that only waits stands in one queue and does nothing else. Take it
out of the queue, and out of the list of calls, and the service that is
left behaves the same towards everybody else, as long as the call itself is
not woken. The main statements:

* `Without.begin`, `Without.resume`: other calls run alike with and without
  it.
* `Without.unlock`, `Without.unlockAll`, `Without.createResource`,
  `Without.collectGarbage`: so do all other operations.
* `Without.joined`, `Without.waited`: what the call does itself when it
  begins, and when it is woken in vain, is not seen without it.
* `Without.eq`: once the call is over, nothing is left of it.

Each operation on the other calls comes with the premise that it does not
wake the call, since the permit would go to somebody else without it.
-/

set_option autoImplicit false

namespace Backplane.Lock

/-! ### Locks -/

namespace Item

variable {i j : Item} {d name : CallId} {n : Nat} {users : Users} {woken : List CallId}

/-- A release that does not wake a call does the same if the call does not
wait. -/
theorem release_leave (hd : d ∉ (i.release n).2) :
    (i.leave d).release n = ((i.release n).1.leave d, (i.release n).2) := by
  have hd : d ∉ i.waiters.take n := hd
  -- Those in front who get the permits are the same, whether or not the call stands behind them.
  have hfront : (i.waiters.take n).filter (· ≠ d) = i.waiters.take n :=
    List.filter_eq_self.mpr fun c hc => decide_eq_true fun heq => hd (heq ▸ hc)
  have hsplit : i.waiters.filter (· ≠ d)
      = i.waiters.take n ++ (i.waiters.drop n).filter (· ≠ d) := by
    rw [← hfront, ← List.filter_append, List.take_append_drop]
  have hboth : (i.waiters.filter (· ≠ d)).take n = i.waiters.take n ∧
      (i.waiters.filter (· ≠ d)).drop n = (i.waiters.drop n).filter (· ≠ d) := by
    rw [hsplit]
    by_cases hlen : n ≤ i.waiters.length
    · have htake : (i.waiters.take n).length = n := List.length_take_of_le hlen
      exact ⟨List.take_left' htake, List.drop_left' htake⟩
    · -- There is nobody behind.
      have hnil : i.waiters.drop n = [] := List.drop_eq_nil_of_le (by omega)
      rw [hnil, List.filter_nil, List.append_nil, List.take_take, Nat.min_self]
      refine ⟨rfl, List.drop_eq_nil_of_le ?_⟩
      rw [List.length_take]
      omega
  unfold release leave
  simp only [hboth.1, hboth.2]

/-- So does a rollback. -/
theorem revoke_leave (hd : d ∉ (i.revoke users).2) :
    (i.leave d).revoke users = ((i.revoke users).1.leave d, (i.revoke users).2) := by
  unfold revoke at hd ⊢
  simp only at hd ⊢
  by_cases hheld : 0 < i.held
  · rw [if_pos hheld] at hd ⊢
    have hheld' : 0 < (i.leave d).held := hheld
    rw [if_pos hheld']
    exact release_leave hd
  · rw [if_neg hheld]
    have hheld' : ¬ 0 < (i.leave d).held := hheld
    rw [if_neg hheld']
    rfl

/-- So does an unlock. -/
theorem unlock_leave (i : Item) (d : CallId) (users : Users) (shared : Bool) (hd : ∀ j woken,
      (if shared then i.releaseShared? users else i.releaseFirst? users) = some (j, woken) →
      d ∉ woken) :
    (if shared then (i.leave d).releaseShared? users else (i.leave d).releaseFirst? users)
      = (if shared then i.releaseShared? users else i.releaseFirst? users).map
        fun r => (r.1.leave d, r.2) := by
  cases shared with
  | true =>
    simp only [if_true] at hd ⊢
    unfold releaseShared? at hd ⊢
    have howned : (i.leave d).isOwnedByAny users = i.isOwnedByAny users := rfl
    rw [howned]
    split
    · rename_i h
      rw [if_pos h] at hd
      exact congrArg some (release_leave (hd _ _ rfl))
    · rfl
  | false =>
    simp only [Bool.false_eq_true, if_false] at hd ⊢
    unfold releaseFirst? at hd ⊢
    -- The first user who is an owner is the same, so the induction is on the users.
    generalize users.members = us at hd ⊢
    induction us with
    | nil => rfl
    | cons u rest ih =>
      rw [List.findSome?_cons, List.findSome?_cons] at *
      by_cases hu : u ∈ i.owners
      · have hu' : u ∈ (i.leave d).owners := hu
        have hone : i.releaseOwner? u
            = some (({ i with owners := i.owners.erase u, held := i.held - 1 }).release 1) :=
          if_pos hu
        have hone' : (i.leave d).releaseOwner? u = some
            (({ i.leave d with owners := i.owners.erase u, held := i.held - 1 }).release 1) :=
          if_pos hu'
        rw [hone] at hd ⊢
        rw [hone']
        exact congrArg some (release_leave (hd _ _ rfl))
      · have hnone : i.releaseOwner? u = none := if_neg hu
        have hnone' : (i.leave d).releaseOwner? u = none := if_neg hu
        rw [hnone] at hd ⊢
        rw [hnone']
        exact ih hd

theorem takePermit?_leave (i : Item) (d : CallId) :
    (i.leave d).takePermit? = i.takePermit?.map (·.leave d) := by
  unfold takePermit?
  have havailable : (i.leave d).available = i.available := rfl
  rw [havailable]
  split <;> rfl

/-- Another call joins the queue. -/
theorem leave_enqueue (hne : name ≠ d) : (i.enqueue name).leave d = (i.leave d).enqueue name := by
  simp [leave, enqueue, hne]

/-- The call joins the queue. -/
theorem leave_enqueue_self (i : Item) (d : CallId) : (i.enqueue d).leave d = i.leave d := by
  simp [leave, enqueue]

theorem leave_leave (i : Item) (d name : CallId) :
    (i.leave name).leave d = (i.leave d).leave name := by
  unfold leave
  simp only [List.filter_filter, Bool.and_comm]

theorem leave_leave_self (i : Item) (d : CallId) : (i.leave d).leave d = i.leave d := by
  simp [leave]

/-- Who is not in the queue need not leave it. -/
theorem leave_of_not_mem_queue (hd : d ∉ i.queue) : i.leave d = i := by
  have hwaiters : i.waiters.filter (· ≠ d) = i.waiters :=
    List.filter_eq_self.mpr fun c hc => decide_eq_true fun heq =>
      hd (List.mem_append_left _ (heq ▸ hc))
  unfold leave
  rw [hwaiters]

end Item

/-! ### The locks of one type -/

namespace Block

/-- The same type, with the same locks, but without the call `d` in their
queues. -/
structure Without (d : CallId) (b b' : Block) : Prop where
  same : b.SameDecl b'
  get? : ∀ y, b'.items.get? y = (b.items.get? y).map (·.leave d)

variable {d name : CallId} {b b' : Block} {i : Item}

theorem Without.item (h : b.Without d b') (y : Int) : b'.item y = (b.item y).leave d := by
  unfold Block.item
  rw [h.get? y, ← h.same.maxLocks_eq]
  cases b.items.get? y <;> rfl

theorem Without.setItem (h : b.Without d b') (y : Int) (i : Item) :
    (b.setItem y i).Without d (b'.setItem y (i.leave d)) := by
  refine ⟨⟨h.same.name_eq, h.same.maxLocks_eq, h.same.allowMulti_eq⟩, fun z => ?_⟩
  show (b'.items.insert y (i.leave d)).get? z = ((b.items.insert y i).get? z).map _
  rw [Table.get?_insert, Table.get?_insert]
  split
  · rfl
  · exact h.get? z

/-- What has been woken by a rollback so far stays woken. -/
theorem woken_undoAll (users : Users) (ids : List Int) (s : Block × List CallId) :
    s.2 ⊆ (ids.foldl (undoStep users) s).2 := by
  induction ids generalizing s with
  | nil => exact List.Subset.refl s.2
  | cons id rest ih => exact fun c hc => ih (undoStep users s id) (List.mem_append_left _ hc)

theorem Without.giveUp (h : b.Without d b') (c : Call) (hd : d ∉ (b.giveUp c).2.2) :
    Agree (Without d) (b.giveUp c) (b'.giveUp c) := by
  -- The induction is on the noted ids, with what has been rolled back so far.
  suffices hfold : ∀ (ids : List Int) (s s' : Block × List CallId), s.1.Without d s'.1 →
      s.2 = s'.2 → d ∉ (ids.foldl (undoStep c.users) s).2 →
      (ids.foldl (undoStep c.users) s).1.Without d (ids.foldl (undoStep c.users) s').1 ∧
        (ids.foldl (undoStep c.users) s).2 = (ids.foldl (undoStep c.users) s').2 by
    obtain ⟨hstate, hwoken⟩ := hfold c.taken (b, []) (b', []) h rfl hd
    exact ⟨rfl, hstate, hwoken⟩
  intro ids
  induction ids with
  | nil => exact fun _ _ hs hwoken _ => ⟨hs, hwoken⟩
  | cons id rest ih =>
    intro s s' hs hwoken hd
    have hnot : d ∉ ((s.1.item id).revoke c.users).2 := fun hmem =>
      hd (woken_undoAll c.users rest (undoStep c.users s id) (List.mem_append_right _ hmem))
    have hitem : (s'.1.item id).revoke c.users = _ :=
      (congrArg (·.revoke c.users) (hs.item id)).trans (Item.revoke_leave hnot)
    refine ih (undoStep c.users s id) (undoStep c.users s' id) ?_ ?_ hd
    · show (s.1.setItem id _).Without d (s'.1.setItem id ((s'.1.item id).revoke c.users).1)
      rw [hitem]
      exact hs.setItem id _
    · show s.2 ++ _ = s'.2 ++ ((s'.1.item id).revoke c.users).2
      rw [hitem, hwoken]

theorem Without.proceed (h : b.Without d b') (hne : name ≠ d) (c : Call) (now : Nat)
    (ids : List Int) (hd : d ∉ (b.proceed name c now ids).2.2) :
    Agree (Without d) (b.proceed name c now ids) (b'.proceed name c now ids) := by
  induction ids generalizing b b' c with
  | nil => exact ⟨rfl, h, rfl⟩
  | cons id rest ih =>
    have howned : (b'.item id).isOwnedByAny c.users = (b.item id).isOwnedByAny c.users := by
      rw [h.item id]
      rfl
    have htouched : (b.setItem id (b.item id)).Without d (b'.setItem id (b'.item id)) := by
      rw [h.item id]
      exact h.setItem id _
    simp only [Block.proceed, howned] at hd ⊢
    split at hd
    · rename_i hown
      rw [if_pos hown, if_pos hown]
      exact ih htouched c hd
    · rename_i hown
      rw [if_neg hown, if_neg hown, h.item id, Item.takePermit?_leave]
      cases htake : (b.item id).takePermit? with
      | some i =>
        rw [htake] at hd
        exact ih (h.setItem id (i.grant c.users)) (c.noteGrant id) hd
      | none =>
        rw [htake] at hd
        dsimp only [Option.map_none] at hd ⊢
        split at hd
        · rename_i hlate
          rw [if_pos hlate, if_pos hlate, ← h.item id]
          exact htouched.giveUp c hd
        · rename_i hlate
          rw [if_neg hlate, if_neg hlate, ← Item.leave_enqueue hne]
          exact ⟨rfl, h.setItem id _, rfl⟩

theorem Without.resume (h : b.Without d b') (hne : name ≠ d) (c : Call) (now : Nat)
    (hd : d ∉ (b.resume name c now).2.2) :
    Agree (Without d) (b.resume name c now) (b'.resume name c now) := by
  unfold Block.resume at hd ⊢
  cases hids : c.ids with
  | nil => exact ⟨rfl, h, rfl⟩
  | cons id rest =>
    rw [hids] at hd
    have hhanded : (b'.item id).handed = (b.item id).handed := by
      rw [h.item id]
      rfl
    simp only [hhanded] at hd ⊢
    split at hd
    · rename_i hmem
      rw [if_pos hmem, if_pos hmem]
      have hunhand : (b'.item id).unhand name = ((b.item id).unhand name).leave d := by
        rw [h.item id]
        rfl
      have howned : ((b'.item id).unhand name).isOwnedByAny c.users
          = ((b.item id).unhand name).isOwnedByAny c.users := by
        rw [hunhand]
        rfl
      simp only [takeHanded, howned] at hd ⊢
      split at hd
      · rename_i hown
        -- The call hands its permit back, which may wake somebody, and goes on.
        simp only [List.mem_append, not_or] at hd
        rw [if_pos hown, if_pos hown, hunhand, Item.release_leave hd.1]
        have hrest := (h.setItem id (((b.item id).unhand name).release 1).1).proceed hne c now rest
          hd.2
        exact ⟨hrest.result, hrest.state, congrArg (_ ++ ·) hrest.woken⟩
      · rename_i hown
        rw [if_neg hown, if_neg hown, hunhand]
        exact (h.setItem id (((b.item id).unhand name).grant c.users)).proceed hne (c.noteGrant id)
          now rest hd
    · rename_i hmem
      rw [if_neg hmem, if_neg hmem]
      split at hd
      · rename_i hlate
        rw [if_pos hlate, if_pos hlate, h.item id, ← Item.leave_leave (b.item id) d name]
        exact (h.setItem id ((b.item id).leave name)).giveUp c hd
      · rename_i hlate
        rw [if_neg hlate, if_neg hlate]
        exact ⟨rfl, h, rfl⟩

end Block

/-! ### Services -/

namespace Service

/-- The same service without the call `d`. -/
structure Without (d : CallId) (s s' : Service) : Prop where
  blocks : Paired (fun _ => Block.Without d) s s'
  calls : ∀ n, s'.calls.get? n = if n = d then none else s.calls.get? n

variable {d name : CallId} {s s' : Service} {r : Request} {t : String} {x : Int} {p : Party}

theorem without_empty (d : CallId) : Without d {} {} :=
  ⟨paired_empty _, fun _ => (ite_self _).symm⟩

theorem Without.get? (h : s.Without d s') (hne : name ≠ d) :
    s'.calls.get? name = s.calls.get? name := by
  rw [h.calls name, if_neg hne]

/-- The run of another call is stored. -/
theorem Without.record (h : s.Without d s') (hne : name ≠ d)
    {step step' : Progress × Block × List CallId} (hstep : Agree (Block.Without d) step step') :
    Agree (Without d) (s.record name step) (s'.record name step') := by
  obtain ⟨p, b, woken⟩ := step
  obtain ⟨p', b', woken'⟩ := step'
  obtain ⟨rfl, hblock, rfl⟩ := hstep
  refine ⟨rfl, ⟨?_, fun n => ?_⟩, rfl⟩
  · show Paired _ { blocks := s.blocks.insert b.name b, calls := _ }
      { blocks := s'.blocks.insert b'.name b', calls := _ }
    rw [← hblock.same.name_eq]
    exact h.blocks.insert hblock _ _
  · -- The name of the call that has run is not the one that is left out.
    have hn : n = name → n ≠ d := fun heq => heq ▸ hne
    have hcalls := h.calls n
    cases p with
    | waiting c =>
      show (s'.calls.insert name c).get? n = if n = d then none else (s.calls.insert name c).get? n
      rw [Table.get?_insert, Table.get?_insert, hcalls]
      split
      · rename_i heq
        rw [if_neg (hn heq)]
      · rfl
    | done granted =>
      show (s'.calls.erase name).get? n = if n = d then none else (s.calls.erase name).get? n
      rw [Table.get?_erase, Table.get?_erase, hcalls]
      split
      · exact (ite_self _).symm
      · rfl

/-! ### The other operations -/

theorem Without.begin (h : s.Without d s') (hne : name ≠ d) (r : Request) (now : Nat)
    (hd : d ∉ (s.begin name r now).2.2) :
    Agree (Without d) (s.begin name r now) (s'.begin name r now) := by
  unfold Service.begin at hd ⊢
  rcases h.blocks.resolve_cases Block.Without.same r.resourceType r.party with
    ⟨e, he, he'⟩ | ⟨b, b', users, hb, hb', hblock⟩
  · rw [he, he']
    exact ⟨rfl, h, rfl⟩
  · rw [hb] at hd
    rw [hb, hb']
    have hrecord := h.record hne (hblock.proceed hne (callOf r users now) now
      (callOf r users now).ids hd)
    exact ⟨congrArg Except.ok hrecord.result, hrecord.state, hrecord.woken⟩

theorem Without.resume (h : s.Without d s') (hne : name ≠ d) (now : Nat)
    (hd : d ∉ (s.resume name now).2.2) :
    Agree (Without d) (s.resume name now) (s'.resume name now) := by
  unfold Service.resume at hd ⊢
  rw [h.get? hne]
  cases hc : s.calls.get? name with
  | none => exact ⟨rfl, h, rfl⟩
  | some c =>
    simp only [hc] at hd
    rcases h.blocks c.resourceType with ⟨ha, ha'⟩ | ⟨b, b', hb, hb', hblock⟩
    · simp only [ha, ha']
      exact ⟨rfl, h, rfl⟩
    · simp only [hb] at hd
      simp only [hb, hb']
      exact h.record hne (hblock.resume hne c now hd)

theorem Without.unlock (h : s.Without d s') (t : String) (id : Int) (p : Party)
    (hd : d ∉ (s.unlock t id p).2.2) :
    Agree (Without d) (s.unlock t id p) (s'.unlock t id p) := by
  unfold Service.unlock at hd ⊢
  rcases h.blocks.resolve_cases Block.Without.same t p with
    ⟨e, he, he'⟩ | ⟨b, b', users, hb, hb', hblock⟩
  · rw [he, he']
    exact ⟨rfl, h, rfl⟩
  · have howners : ((b.item id).leave d).owners = (b.item id).owners := rfl
    simp only [hb, unlockItem_eq] at hd
    simp only [hb, hb', unlockItem_eq, ← hblock.same.allowMulti_eq, ← hblock.same.name_eq,
      hblock.item id, howners]
    have hrelease := Item.unlock_leave (b.item id) d users b.allowMulti fun j woken heq => by
      rw [heq] at hd
      exact hd
    rw [hrelease]
    cases if b.allowMulti then (b.item id).releaseShared? users
        else (b.item id).releaseFirst? users with
    | none =>
      dsimp only [Option.map_none]
      cases (b.item id).owners.isEmpty with
      | true => exact ⟨rfl, h, rfl⟩
      | false => exact ⟨rfl, h, rfl⟩
    | some released =>
      obtain ⟨j, woken⟩ := released
      refine ⟨rfl, ⟨?_, h.calls⟩, rfl⟩
      show Paired _ { s with blocks := s.blocks.insert b.name _ }
        { s' with blocks := s'.blocks.insert b'.name _ }
      rw [← hblock.same.name_eq]
      exact h.blocks.insert (hblock.setItem id j) _ _

/-- What has been woken by the unlocks of a list so far stays woken. -/
theorem woken_unlocks (t : String) (p : Party) (ids : List Int)
    (acc : Except Error Unit × Service × List CallId) :
    acc.2.2 ⊆ (ids.foldl (unlockStep t p) acc).2.2 := by
  induction ids generalizing acc with
  | nil => exact List.Subset.refl _
  | cons id rest ih => exact fun c hc => ih (unlockStep t p acc id) (List.mem_append_left _ hc)

theorem Without.unlockAll (h : s.Without d s') (t : String) (ids : List Int) (p : Party)
    (hd : d ∉ (s.unlockAll t ids p).2.2) :
    Agree (Without d) (s.unlockAll t ids p) (s'.unlockAll t ids p) := by
  rw [unlockAll_eq] at hd ⊢
  rw [unlockAll_eq]
  rcases h.blocks.resolve_cases Block.Without.same t p with
    ⟨e, he, he'⟩ | ⟨b, b', users, hb, hb', _⟩
  · rw [he, he']
    exact ⟨rfl, h, rfl⟩
  · rw [hb] at hd
    rw [hb, hb']
    -- The induction is on the ids, with what has been unlocked so far.
    suffices hfold : ∀ (acc acc' : Except Error Unit × Service × List CallId),
        Agree (Without d) acc acc' → d ∉ (ids.foldl (unlockStep t p) acc).2.2 →
        Agree (Without d) (ids.foldl (unlockStep t p) acc) (ids.foldl (unlockStep t p) acc') from
      hfold (.ok (), s, []) (.ok (), s', []) ⟨rfl, h, rfl⟩ hd
    clear hd
    induction ids with
    | nil => exact fun _ _ hacc _ => hacc
    | cons id rest ih =>
      intro acc acc' hacc hd
      have hnot : d ∉ (acc.2.1.unlock t id p).2.2 := fun hmem =>
        hd (woken_unlocks t p rest (unlockStep t p acc id) (List.mem_append_right _ hmem))
      have hunlock := hacc.state.unlock t id p hnot
      refine ih _ _ ⟨?_, hunlock.state, ?_⟩ hd
      · show firstError acc.1 _ = firstError acc'.1 _
        rw [hacc.result, hunlock.result]
      · show acc.2.2 ++ _ = acc'.2.2 ++ _
        rw [hacc.woken, hunlock.woken]

theorem Without.createResource (h : s.Without d s') (decl : TypeDecl) :
    (s.createResource decl).map (fun _ => ()) = (s'.createResource decl).map (fun _ => ()) ∧
      Without d ((s.createResource decl).toOption.getD s)
        ((s'.createResource decl).toOption.getD s') := by
  rcases h.blocks.createResource_cases Block.Without.same decl with
    ⟨e, he, he'⟩ | ⟨hok, hok'⟩ | ⟨b, hnew, hok, hok'⟩
  · rw [he, he']
    exact ⟨rfl, h⟩
  · rw [hok, hok']
    exact ⟨rfl, h⟩
  · have hb : b.Without d b := ⟨.refl b, fun y => by rw [hnew, Table.get?_empty]; rfl⟩
    rw [hok, hok']
    exact ⟨rfl, h.blocks.insert hb _ _, h.calls⟩

/-- A lock that somebody waits for in vain is in use. -/
theorem Sound.not_isFree (h : s.Sound) {b : Block} (hb : s.blocks.get? t = some b) {i : Item}
    (hi : b.items.get? x = some i) (hwaits : i.waiters ≠ []) : i.isFree = false := by
  have hsound := (h.block hb).item x
  rw [Block.item_of_get? hi] at hsound
  have hbusy := hsound.busy hwaits
  have hcapacity := hsound.capacity_eq
  have hpos := (h.block hb).pos
  unfold Item.isFree
  rw [Bool.and_eq_false_iff]
  refine .inl (beq_eq_false_iff_ne.mpr ?_)
  omega

/-- A call that waits for one id without a permit in hand makes no
difference to what a collection drops: the lock that it needs is in use. -/
theorem Without.collectGarbage (h : s.Without d s') (hs : s.Sound) (hs' : s'.Sound)
    (hfor : ∀ c, s.calls.get? d = some c → ∃ y, c.IsFor y) (hnone : ¬ s.HasPermit d) :
    s.collectGarbage.2.Without d s'.collectGarbage.2 := by
  refine ⟨h.blocks.collectGarbage fun {t b b'} hb hb' hrel => ⟨?_, fun y => ?_⟩, h.calls⟩
  · exact ⟨hrel.same.name_eq, hrel.same.maxLocks_eq, hrel.same.allowMulti_eq⟩
  · rw [items_get?_survivors hs hb, items_get?_survivors hs' hb', hs.name_eq hb, hs'.name_eq hb',
      hrel.get? y]
    cases hi : b.items.get? y with
    | none => rfl
    | some i =>
      have hkeep : (s.isNeeded t y || !i.isFree)
          = (s'.isNeeded t y || !(i.leave d).isFree) := by
        have hfree : (i.leave d).isFree = i.isFree := rfl
        rw [hfree]
        cases hf : i.isFree with
        | false => rw [Bool.not_false, Bool.or_true, Bool.or_true]
        | true =>
          rw [Bool.not_true, Bool.or_false, Bool.or_false, Bool.eq_iff_iff, isNeeded_iff hs,
            isNeeded_iff hs']
          -- A free lock is not the one that the call waits for, so others need it or nobody.
          have hother : ∀ n, s.Uses n t y → n ≠ d := by
            rintro n ⟨c, hc, htype, huse⟩ rfl
            obtain ⟨z, hz⟩ := hfor c hc
            rw [hz.taken_eq] at huse
            have hhead := huse.resolve_right List.not_mem_nil
            have hqueue := (hs.place hb y n).mpr ⟨c, hc, htype, hhead⟩
            have hwaits : n ∈ (b.item y).waiters :=
              (List.mem_append.mp hqueue).resolve_right fun hhanded => hnone ⟨t, b, y, hb, hhanded⟩
            rw [Block.item_of_get? hi] at hwaits
            rw [hs.not_isFree hb hi (List.ne_nil_of_mem hwaits)] at hf
            cases hf
          constructor
          · rintro ⟨n, huse⟩
            have hne := hother n huse
            obtain ⟨c, hc, hrest⟩ := huse
            exact ⟨n, c, (h.get? hne).trans hc, hrest⟩
          · rintro ⟨n, c, hc, hrest⟩
            rw [h.calls n] at hc
            split at hc
            · cases hc
            · exact ⟨n, c, hc, hrest⟩
      rw [Option.filter_some, hkeep, Option.map_some, Option.filter_some]
      split <;> rfl

/-! ### What the call does itself -/

/-- The call changes nothing of its lock but its own place in the queue. -/
theorem Without.record_left (h : s.Without d s') {b : Block} (hb : s.blocks.get? t = some b)
    (hname : b.name = t) {i j : Item} (hi : b.items.get? x = some i)
    (hj : j.leave d = i.leave d) (p : Progress) (woken : List CallId) :
    (s.record d (p, b.setItem x j, woken)).2.1.Without d s' := by
  obtain ⟨b', hb', hrel⟩ := h.blocks.of_get? hb
  refine ⟨?_, fun n => ?_⟩
  · show Paired _ { blocks := s.blocks.insert b.name (b.setItem x j), calls := _ } s'
    rw [hname]
    refine h.blocks.insert_left hb' ⟨?_, fun y => ?_⟩ _
    · exact ⟨hrel.same.name_eq, hrel.same.maxLocks_eq, hrel.same.allowMulti_eq⟩
    · show b'.items.get? y = ((b.items.insert x j).get? y).map _
      rw [hrel.get? y, Table.get?_insert]
      split
      · rename_i heq
        rw [heq, hi, Option.map_some, Option.map_some, hj]
      · rfl
  · rw [h.calls n]
    by_cases hn : n = d
    · rw [if_pos hn, if_pos hn]
    · rw [if_neg hn, if_neg hn]
      cases p with
      | waiting c =>
        show _ = (s.calls.insert d c).get? n
        rw [Table.get?_insert, if_neg hn]
      | done granted =>
        show _ = (s.calls.erase d).get? n
        rw [Table.get?_erase, if_neg hn]

/-- A call for one id that is not granted when it begins is not seen. -/
theorem Without.joined (h : s.Without d s') (hs : s.Sound) (hids : r.ids = [x]) (now : Nat)
    (hnot : (s.begin d r now).1 ≠ .ok (.done true)) : (s.begin d r now).2.1.Without d s' := by
  unfold Service.begin at hnot ⊢
  cases hresolve : s.resolve r.resourceType r.party with
  | error e => exact h
  | ok found =>
    obtain ⟨b, users⟩ := found
    have hfor := isFor_callOf hids users now
    have hb := (resolve_ok hresolve).1
    simp only [hresolve, hfor.ids_eq, Block.proceed_single _ _ _ _ hfor.taken_eq] at hnot ⊢
    have hask : ((b.item x).ask d (callOf r users now) now x).1 ≠ .done true := fun heq =>
      hnot (congrArg Except.ok heq)
    -- No permit is available, so the lock is in use already, and hence there.
    have hnone : (b.item x).takePermit? = none ∧
        ((b.item x).ask d (callOf r users now) now x).2.leave d = (b.item x).leave d := by
      unfold Item.ask at hask ⊢
      split at hask
      · exact absurd rfl hask
      · rename_i hown
        rw [if_neg hown]
        cases htake : (b.item x).takePermit? with
        | some j =>
          rw [htake] at hask
          exact absurd rfl hask
        | none =>
          refine ⟨rfl, ?_⟩
          dsimp only
          split
          · rfl
          · exact Item.leave_enqueue_self _ d
    obtain ⟨htake, hleave⟩ := hnone
    cases hi : b.items.get? x with
    | none =>
      rw [Block.item_of_get?_eq_none hi] at htake
      have hpos : 0 < (Item.fresh b.maxLocks).available := (hs.block hb).pos
      unfold Item.takePermit? at htake
      rw [if_pos hpos] at htake
      cases htake
    | some i =>
      refine h.record_left hb (hs.name_eq hb) hi ?_ _ _
      rw [hleave, Block.item_of_get? hi]

/-- Nor is it seen when it is woken without a permit in hand. -/
theorem Without.waited (h : s.Without d s') (hs : s.Sound)
    (hfor : ∀ c, s.calls.get? d = some c → ∃ y, c.IsFor y) (hnone : ¬ s.HasPermit d) (now : Nat) :
    (s.resume d now).2.1.Without d s' := by
  cases hc : s.calls.get? d with
  | none =>
    rw [resume_of_get?_eq_none hc]
    exact h
  | some c =>
    obtain ⟨y, hy⟩ := hfor c hc
    obtain ⟨b, i, hb, hi, heq⟩ := resume_eq_of_isFor hs hc hy now
    have hhanded : d ∉ i.handed := fun hd =>
      hnone ⟨_, b, y, hb, (Block.item_of_get? hi).symm ▸ hd⟩
    rw [heq]
    refine h.record_left hb (hs.name_eq hb) hi ?_ _ _
    unfold Item.attend
    rw [if_neg hhanded]
    split
    · exact Item.leave_leave_self i d
    · rfl

/-! ### What is left of the call -/

/-- Without a call that is over, the service is the same. -/
theorem Without.eq (h : s.Without d s') (hs : s.Sound) (hs' : s'.Sound)
    (hover : s.calls.get? d = none) : s = s' := by
  have hcalls : s.calls = s'.calls := by
    refine Table.ext_get? hs.calls_ascending hs'.calls_ascending fun n => ?_
    rw [h.calls n]
    split
    · rename_i hn
      rw [hn, hover]
    · rfl
  have hblock : ∀ {t : String} {b b' : Block}, s.blocks.get? t = some b →
      s'.blocks.get? t = some b' → b.Without d b' → b = b' := by
    intro t b b' hb hb' hrel
    have hitems : b.items = b'.items := by
      refine Table.ext_get? (hs.block hb).ascending (hs'.block hb').ascending fun y => ?_
      rw [hrel.get? y]
      cases hi : b.items.get? y with
      | none => rfl
      | some i =>
        -- Whoever is in a queue is a call under way.
        have hnot : d ∉ i.queue := by
          intro hd
          rw [← Block.item_of_get? hi] at hd
          obtain ⟨c, hc, _⟩ := (hs.place hb y d).mp hd
          rw [hover] at hc
          cases hc
        rw [Option.map_some, Item.leave_of_not_mem_queue hnot]
    obtain ⟨name, maxLocks, allowMulti, items⟩ := b
    obtain ⟨name', maxLocks', allowMulti', items'⟩ := b'
    obtain ⟨⟨rfl, rfl, rfl⟩, _⟩ := hrel
    obtain rfl : items = items' := hitems
    rfl
  have hblocks : s.blocks = s'.blocks := by
    refine Table.ext_get? hs.blocks_ascending hs'.blocks_ascending fun t => ?_
    rcases h.blocks t with ⟨ha, ha'⟩ | ⟨b, b', hb, hb', hrel⟩
    · rw [ha, ha']
    · rw [hb, hb', hblock hb hb' hrel]
  obtain ⟨blocks, calls⟩ := s
  obtain ⟨blocks', calls'⟩ := s'
  obtain rfl : blocks = blocks' := hblocks
  obtain rfl : calls = calls' := hcalls
  rfl

end Service

end Backplane.Lock
