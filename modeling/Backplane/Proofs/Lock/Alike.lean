import Backplane.Proofs.Lock.Paired
import Backplane.Proofs.Lock.Wakeup

/-!
# `Backplane.Proofs.Lock.Alike`: services that behave alike

A lock that is free and that no call needs differs from a fresh one at
most in its last owner, which nothing but a look at the lock shows. Two
services are alike if they have the same types and calls, and each lock of
the one is the same in the other, or unused in both. The main statements:

* `Alike.begin`, `Alike.resume`, `Alike.unlock`, `Alike.unlockAll`,
  `Alike.createResource`: the same operation on services that are alike
  gives the same result, wakes the same calls, and leaves services that
  are alike.
* `Alike.owners_eq`, `Alike.info`: whoever looks at them sees the same,
  but for unused locks.
* `alike_collectGarbage`: a collection leaves a service alike.
-/

set_option autoImplicit false

namespace Backplane.Lock

/-! ### Locks -/

namespace Item

/-- Two locks are the same, or both are unused. -/
inductive Alike : Item → Item → Prop where
  | same (i : Item) : Alike i i
  | unused {capacity : Nat} (hpos : 0 < capacity) (a a' : Option Int) :
      Alike { fresh capacity with lastOwner := a } { fresh capacity with lastOwner := a' }

variable {i j : Item}

theorem Alike.symm (h : i.Alike j) : j.Alike i := by
  cases h with
  | same => exact .same i
  | unused hpos a a' => exact .unused hpos a' a

theorem Alike.trans {k : Item} (h : i.Alike j) (h' : j.Alike k) : i.Alike k := by
  cases h with
  | same => exact h'
  | @unused capacity hpos a a' =>
    generalize hj : { fresh capacity with lastOwner := a' } = j at h'
    cases h' with
    | same => exact hj ▸ .unused hpos a a'
    | @unused capacity' hpos' b b' =>
      have hcapacity : capacity = capacity' := congrArg Item.capacity hj
      subst hcapacity
      exact .unused hpos a b'

theorem Alike.owners_eq (h : i.Alike j) : i.owners = j.owners := by
  cases h <;> rfl

theorem Alike.handed_eq (h : i.Alike j) : i.handed = j.handed := by
  cases h <;> rfl

theorem Alike.isOwnedByAny_eq (h : i.Alike j) (users : Users) :
    i.isOwnedByAny users = j.isOwnedByAny users := by
  unfold isOwnedByAny
  rw [h.owners_eq]

/-- An unused lock is in no call's hand. -/
theorem Alike.eq_of_handed (h : i.Alike j) {name : CallId} (hn : name ∈ i.handed) : i = j := by
  cases h with
  | same => rfl
  | unused => cases hn

/-- A permit of either is available, or both are the same. The first grant
makes two unused locks the same. -/
theorem Alike.takePermit? (h : i.Alike j) :
    (i.takePermit? = none ∧ j.takePermit? = none ∧ i = j) ∨
      ∃ i' j', i.takePermit? = some i' ∧ j.takePermit? = some j' ∧
        ∀ users, i'.grant users = j'.grant users := by
  cases h with
  | same =>
    cases hi : i.takePermit? with
    | none => exact .inl ⟨rfl, rfl, rfl⟩
    | some i' => exact .inr ⟨i', i', rfl, rfl, fun _ => rfl⟩
  | unused hpos a a' =>
    -- The grant writes the last owner, and so the difference is gone.
    exact .inr ⟨_, _, if_pos hpos, if_pos hpos, fun _ => rfl⟩

/-- A call that is not in the queue leaves an unused lock as it is. -/
theorem Alike.leave (h : i.Alike j) (name : CallId) : (i.leave name).Alike (j.leave name) := by
  cases h with
  | same => exact .same _
  | unused hpos a a' => exact .unused hpos a a'

/-- An unused lock has no grant to take back. -/
theorem Alike.revoke (h : i.Alike j) (users : Users) :
    (i.revoke users).1.Alike (j.revoke users).1 ∧ (i.revoke users).2 = (j.revoke users).2 := by
  cases h with
  | same => exact ⟨.same _, rfl⟩
  | unused hpos a a' => exact ⟨.unused hpos a a', rfl⟩

/-- Nobody can unlock a lock without owners. -/
theorem release_eq_none (howners : i.owners = ∅) (shared : Bool) (users : Users) :
    (if shared then i.releaseShared? users else i.releaseFirst? users) = none := by
  have hnot : ∀ u, u ∉ i.owners := fun u hu => by
    rw [howners] at hu
    cases hu
  cases shared with
  | true =>
    have hnone : i.isOwnedByAny users = false := by
      rw [Bool.eq_false_iff]
      intro htrue
      obtain ⟨u, _, hu⟩ := (isOwnedByAny_iff i users).mp htrue
      exact hnot u hu
    rw [if_pos rfl]
    unfold releaseShared?
    rw [hnone, if_neg (by decide)]
  | false =>
    rw [if_neg (by decide)]
    exact List.findSome?_eq_none_iff.mpr fun u _ => if_neg (hnot u)

theorem Alike.release (h : i.Alike j) (shared : Bool) (users : Users) :
    (if shared then i.releaseShared? users else i.releaseFirst? users)
      = if shared then j.releaseShared? users else j.releaseFirst? users := by
  cases h with
  | same => rfl
  | unused hpos a a' => rw [release_eq_none rfl, release_eq_none rfl]

/-- What shows of two locks that are alike: everything is the same, or both
are free and only the last owner tells them apart. -/
theorem Alike.shown (h : i.Alike j) : i = j ∨
    (i.owners = ∅ ∧ i.available = i.capacity ∧ j = { i with lastOwner := j.lastOwner }) := by
  cases h with
  | same => exact .inl rfl
  | unused => exact .inr ⟨rfl, rfl, rfl⟩

/-- A lock that is like a fresh one shows that it is free. -/
theorem Alike.free {capacity : Nat} (h : (fresh capacity).Alike j) :
    j.owners = ∅ ∧ j.available = j.capacity := by
  rcases h.shown with heq | ⟨_, _, heq⟩
  · rw [← heq]
    exact ⟨rfl, rfl⟩
  · rw [heq]
    exact ⟨rfl, rfl⟩

/-- A free lock that no call needs is like a fresh one. -/
theorem alike_fresh {shared : Bool} (h : Funded shared i) (hfree : i.isFree = true)
    (hqueue : i.queue = []) : i.Alike (fresh i.capacity) := by
  have hheld := (h.held_of_isFree hfree).1
  have hpos := h.pos
  -- Every field but the last owner is that of a fresh lock.
  obtain ⟨hwaiters, hhanded⟩ := List.append_eq_nil_iff.mp hqueue
  obtain ⟨havailable, howners⟩ := (isFree_iff i).mp hfree
  have hi : i = { fresh i.capacity with lastOwner := i.lastOwner } := by
    obtain ⟨capacity, available, waiters, handed, ⟨owners⟩, held, lastOwner⟩ := i
    cases hheld
    cases hwaiters
    cases hhanded
    cases havailable
    cases howners
    rfl
  rw [hi]
  exact .unused hpos i.lastOwner none

end Item

/-! ### The locks of one type -/

namespace Block

/-- Two types with the same declaration, whose locks are alike. -/
structure Alike (b b' : Block) : Prop where
  name_eq : b.name = b'.name
  maxLocks_eq : b.maxLocks = b'.maxLocks
  allowMulti_eq : b.allowMulti = b'.allowMulti
  item : ∀ x, (b.item x).Alike (b'.item x)

variable {b b' : Block}

theorem Alike.symm (h : b.Alike b') : b'.Alike b :=
  ⟨h.name_eq.symm, h.maxLocks_eq.symm, h.allowMulti_eq.symm, fun x => (h.item x).symm⟩

theorem Alike.trans {b₁ b₂ b₃ : Block} (h : b₁.Alike b₂) (h' : b₂.Alike b₃) : b₁.Alike b₃ :=
  ⟨h.name_eq.trans h'.name_eq, h.maxLocks_eq.trans h'.maxLocks_eq,
    h.allowMulti_eq.trans h'.allowMulti_eq, fun x => (h.item x).trans (h'.item x)⟩

theorem Alike.sameDecl (h : b.Alike b') : b.SameDecl b' :=
  ⟨h.name_eq, h.maxLocks_eq, h.allowMulti_eq⟩

theorem Alike.setItem (h : b.Alike b') (id : Int) {i j : Item} (hij : i.Alike j) :
    (b.setItem id i).Alike (b'.setItem id j) := by
  refine ⟨h.name_eq, h.maxLocks_eq, h.allowMulti_eq, fun x => ?_⟩
  rw [item_setItem, item_setItem]
  split
  · exact hij
  · exact h.item x

theorem Alike.rollBack (h : b.Alike b') (c : Call) :
    (b.rollBack c).1.Alike (b'.rollBack c).1 ∧ (b.rollBack c).2 = (b'.rollBack c).2 := by
  -- The induction is on the noted ids, with what has been rolled back so far.
  suffices hfold : ∀ (ids : List Int) (acc acc' : Block × List CallId), acc.1.Alike acc'.1 →
      acc.2 = acc'.2 →
      (ids.foldl (undoStep c.users) acc).1.Alike (ids.foldl (undoStep c.users) acc').1 ∧
        (ids.foldl (undoStep c.users) acc).2 = (ids.foldl (undoStep c.users) acc').2 by
    rw [rollBack_eq, rollBack_eq]
    exact hfold c.taken (b, []) (b', []) h rfl
  intro ids
  induction ids with
  | nil => exact fun _ _ hblock hwoken => ⟨hblock, hwoken⟩
  | cons id rest ih =>
    intro acc acc' hblock hwoken
    obtain ⟨hitem, hmore⟩ := (hblock.item id).revoke c.users
    refine ih _ _ (hblock.setItem id hitem) ?_
    show acc.2 ++ _ = acc'.2 ++ _
    rw [hwoken, hmore]

theorem Alike.giveUp (h : b.Alike b') (c : Call) : Agree Alike (b.giveUp c) (b'.giveUp c) :=
  ⟨rfl, (h.rollBack c).1, (h.rollBack c).2⟩

theorem Alike.proceed (h : b.Alike b') (name : CallId) (c : Call) (now : Nat) (ids : List Int) :
    Agree Alike (b.proceed name c now ids) (b'.proceed name c now ids) := by
  induction ids generalizing b b' c with
  | nil => exact ⟨rfl, h, rfl⟩
  | cons id rest ih =>
    have hitem := h.item id
    have htouched := h.setItem id hitem
    simp only [Block.proceed, hitem.isOwnedByAny_eq c.users]
    split
    · exact ih htouched c
    · rcases hitem.takePermit? with ⟨hi, hj, hsame⟩ | ⟨i, j, hi, hj, hgrant⟩
      · -- Nobody gets a permit, so this is a lock in use and the same on both sides.
        simp only [hi, hj]
        split
        · exact htouched.giveUp c
        · refine ⟨rfl, h.setItem id ?_, rfl⟩
          rw [hsame]
          exact .same _
      · simp only [hi, hj]
        refine ih (h.setItem id ?_) (c.noteGrant id)
        rw [hgrant c.users]
        exact .same _

/-- A lock with a permit in the hand of a call is the same on both sides. -/
theorem Alike.takeHanded (h : b.Alike b') (name : CallId) (c : Call) (now : Nat) (id : Int)
    (rest : List Int) (hhanded : name ∈ (b.item id).handed) :
    Agree Alike (b.takeHanded name c now id rest) (b'.takeHanded name c now id rest) := by
  simp only [Block.takeHanded, ← (h.item id).eq_of_handed hhanded]
  split
  · have hrest := (h.setItem id (.same (((b.item id).unhand name).release 1).1)).proceed name c now
      rest
    refine ⟨hrest.result, hrest.state, ?_⟩
    exact congrArg ((((b.item id).unhand name).release 1).2 ++ ·) hrest.woken
  · exact (h.setItem id (.same _)).proceed name (c.noteGrant id) now rest

theorem Alike.resume (h : b.Alike b') (name : CallId) (c : Call) (now : Nat) :
    Agree Alike (b.resume name c now) (b'.resume name c now) := by
  unfold Block.resume
  cases c.ids with
  | nil => exact ⟨rfl, h, rfl⟩
  | cons id rest =>
    -- Both sides hand the same permits out, so the call has one on both or on neither.
    simp only [← (h.item id).handed_eq]
    split
    · rename_i hhanded
      exact h.takeHanded name c now id rest hhanded
    · split
      · exact (h.setItem id ((h.item id).leave name)).giveUp c
      · exact ⟨rfl, h, rfl⟩

/-- What a look-up of a lock finds, where it only matters who owns it. -/
theorem owners_getD (b : Block) (x : Int) :
    ((b.items.get? x).map fun i => i.owners.members).getD [] = (b.item x).owners.members := by
  unfold item
  cases b.items.get? x <;> rfl

end Block

/-! ### Services -/

namespace Service

/-- Two services with the same calls and the same types, whose locks are
alike. -/
structure Alike (s s' : Service) : Prop where
  calls_eq : s.calls = s'.calls
  keys_eq : s.blocks.keys = s'.blocks.keys
  block : ∀ t, (s.blocks.get? t = none ∧ s'.blocks.get? t = none) ∨
    ∃ b b', s.blocks.get? t = some b ∧ s'.blocks.get? t = some b' ∧ b.Alike b'

variable {s s' : Service}

theorem Alike.symm (h : s.Alike s') : s'.Alike s := by
  refine ⟨h.calls_eq.symm, h.keys_eq.symm, fun t => ?_⟩
  rcases h.block t with ⟨ha, ha'⟩ | ⟨b, b', hb, hb', hblock⟩
  · exact .inl ⟨ha', ha⟩
  · exact .inr ⟨b', b, hb', hb, hblock.symm⟩

theorem Alike.trans {s₁ s₂ s₃ : Service} (h : s₁.Alike s₂) (h' : s₂.Alike s₃) : s₁.Alike s₃ := by
  refine ⟨h.calls_eq.trans h'.calls_eq, h.keys_eq.trans h'.keys_eq, fun t => ?_⟩
  rcases h.block t with ⟨ha, ha'⟩ | ⟨b₁, b₂, hb₁, hb₂, hblock⟩
  · rcases h'.block t with ⟨_, ha''⟩ | ⟨b, _, hb, _⟩
    · exact .inl ⟨ha, ha''⟩
    · rw [ha'] at hb
      cases hb
  · rcases h'.block t with ⟨ha, _⟩ | ⟨b₂', b₃, hb₂', hb₃, hblock'⟩
    · rw [hb₂] at ha
      cases ha
    · rw [hb₂] at hb₂'
      cases hb₂'
      exact .inr ⟨b₁, b₃, hb₁, hb₃, hblock.trans hblock'⟩

theorem Alike.paired (h : s.Alike s') : Paired (fun _ => Block.Alike) s s' := h.block

/-- The locks of one type are written to on both sides. -/
theorem Alike.insert (h : s.Alike s') {t t' : String} (ht : t = t') {b b' : Block}
    (hb : b.Alike b') {calls calls' : Table CallId Call} (hcalls : calls = calls') :
    Alike { blocks := s.blocks.insert t b, calls }
      { blocks := s'.blocks.insert t' b', calls := calls' } := by
  subst ht
  exact ⟨hcalls, Table.keys_insert_congr h.keys_eq t b b', h.paired.insert hb calls calls'⟩

/-- Whoever asks is refused on both sides for the same reason, or on
neither. -/
theorem Alike.resolve_cases (h : s.Alike s') (t : String) (p : Party) :
    (∃ e, s.resolve t p = .error e ∧ s'.resolve t p = .error e) ∨
      ∃ b b' users, s.resolve t p = .ok (b, users) ∧ s'.resolve t p = .ok (b', users) ∧
        b.Alike b' :=
  h.paired.resolve_cases Block.Alike.sameDecl t p

/-! ### The same operation on both sides -/

theorem Alike.record (h : s.Alike s') (name : CallId) {step step' : Progress × Block × List CallId}
    (hstep : Agree Block.Alike step step') :
    Agree Alike (s.record name step) (s'.record name step') := by
  obtain ⟨p, b, woken⟩ := step
  obtain ⟨p', b', woken'⟩ := step'
  obtain ⟨rfl, hblock, rfl⟩ := hstep
  refine ⟨rfl, h.insert hblock.name_eq hblock ?_, rfl⟩
  rw [h.calls_eq]

theorem Alike.begin (h : s.Alike s') (name : CallId) (r : Request) (now : Nat) :
    Agree Alike (s.begin name r now) (s'.begin name r now) := by
  unfold Service.begin
  rcases h.resolve_cases r.resourceType r.party with ⟨e, he, he'⟩ | ⟨b, b', users, hb, hb', hblock⟩
  · rw [he, he']
    exact ⟨rfl, h, rfl⟩
  · rw [hb, hb']
    have hrecord := h.record name (hblock.proceed name (callOf r users now) now
      (callOf r users now).ids)
    exact ⟨congrArg Except.ok hrecord.result, hrecord.state, hrecord.woken⟩

theorem Alike.resume (h : s.Alike s') (name : CallId) (now : Nat) :
    Agree Alike (s.resume name now) (s'.resume name now) := by
  unfold Service.resume
  rw [← h.calls_eq]
  cases s.calls.get? name with
  | none => exact ⟨rfl, h, rfl⟩
  | some c =>
    rcases h.block c.resourceType with ⟨ha, ha'⟩ | ⟨b, b', hb, hb', hblock⟩
    · simp only [ha, ha']
      exact ⟨rfl, h, rfl⟩
    · simp only [hb, hb']
      exact h.record name (hblock.resume name c now)

/-- What an unlock does depends on the lock alone, also where there is none
yet. -/
theorem unlockItem_eq (s : Service) (b : Block) (users : Users) (id : Int) :
    s.unlockItem b users id =
      match if b.allowMulti then (b.item id).releaseShared? users
        else (b.item id).releaseFirst? users with
      | some (j, woken) => .ok (s.setItem b id j, woken)
      | none =>
        if (b.item id).owners.isEmpty then .error (.notLocked b.name id)
        else .error (.notOwner b.name id users.members) := by
  unfold unlockItem
  cases hi : b.items.get? id with
  | some i =>
    obtain rfl := Block.item_of_get? hi
    rfl
  | none =>
    have howners : (b.item id).owners = ∅ := by rw [Block.item_of_get?_eq_none hi]; rfl
    simp only [Item.release_eq_none howners, howners]
    rfl

theorem Alike.unlock (h : s.Alike s') (t : String) (id : Int) (p : Party) :
    Agree Alike (s.unlock t id p) (s'.unlock t id p) := by
  unfold Service.unlock
  rcases h.resolve_cases t p with ⟨e, he, he'⟩ | ⟨b, b', users, hb, hb', hblock⟩
  · rw [he, he']
    exact ⟨rfl, h, rfl⟩
  · have hitem := hblock.item id
    simp only [hb, hb', unlockItem_eq, ← hblock.allowMulti_eq, ← hitem.release, ← hitem.owners_eq,
      ← hblock.name_eq]
    cases if b.allowMulti then (b.item id).releaseShared? users
        else (b.item id).releaseFirst? users with
    | none =>
      dsimp only
      cases (b.item id).owners.isEmpty with
      | true => exact ⟨rfl, h, rfl⟩
      | false => exact ⟨rfl, h, rfl⟩
    | some released =>
      obtain ⟨j, woken⟩ := released
      exact ⟨rfl, h.insert hblock.name_eq (hblock.setItem id (.same j)) h.calls_eq, rfl⟩

/-- The unlocks of a list, one after the other. -/
private theorem Alike.unlocks (t : String) (p : Party) (ids : List Int)
    {acc acc' : Except Error Unit × Service × List CallId} (h : Agree Alike acc acc') :
    Agree Alike (ids.foldl (unlockStep t p) acc) (ids.foldl (unlockStep t p) acc') := by
  induction ids generalizing acc acc' with
  | nil => exact h
  | cons id rest ih =>
    have hunlock := h.state.unlock t id p
    refine ih ⟨?_, hunlock.state, ?_⟩
    · show firstError acc.1 _ = firstError acc'.1 _
      rw [h.result, hunlock.result]
    · show acc.2.2 ++ _ = acc'.2.2 ++ _
      rw [h.woken, hunlock.woken]

theorem Alike.unlockAll (h : s.Alike s') (t : String) (ids : List Int) (p : Party) :
    Agree Alike (s.unlockAll t ids p) (s'.unlockAll t ids p) := by
  rw [unlockAll_eq, unlockAll_eq]
  rcases h.resolve_cases t p with ⟨e, he, he'⟩ | ⟨b, b', users, hb, hb', _⟩
  · rw [he, he']
    exact ⟨rfl, h, rfl⟩
  · rw [hb, hb']
    exact Alike.unlocks t p ids ⟨rfl, h, rfl⟩

/-- A declaration is refused on both sides for the same reason, or on
neither. -/
theorem Alike.createResource (h : s.Alike s') (d : TypeDecl) :
    (∃ e, s.createResource d = .error e ∧ s'.createResource d = .error e) ∨
      ∃ r r', s.createResource d = .ok r ∧ s'.createResource d = .ok r' ∧ r.Alike r' := by
  rcases h.paired.createResource_cases Block.Alike.sameDecl d with
    ⟨e, he, he'⟩ | ⟨hs, hs'⟩ | ⟨b, _, hs, hs'⟩
  · exact .inl ⟨e, he, he'⟩
  · exact .inr ⟨s, s', hs, hs', h⟩
  · have hnew : b.Alike b := ⟨rfl, rfl, rfl, fun _ => .same _⟩
    exact .inr ⟨_, _, hs, hs', h.insert rfl hnew h.calls_eq⟩

/-- A collection leaves a service alike: what it drops was unused. -/
theorem alike_collectGarbage (h : s.Sound)
    (hfunded : ∀ t b, s.blocks.get? t = some b → ∀ x, (b.item x).Funded b.allowMulti) :
    s.Alike s.collectGarbage.2 := by
  have hget := blocks_get?_collectGarbage s
  have hkeys : s.collectGarbage.2.blocks.keys = s.blocks.keys := List.map_map
  refine ⟨rfl, hkeys.symm, fun t => ?_⟩
  cases hb : s.blocks.get? t with
  | none => exact .inl ⟨rfl, by rw [hget t, hb, Option.map_none]⟩
  | some b =>
    refine .inr ⟨b, s.survivors b, rfl, by rw [hget t, hb, Option.map_some],
      ⟨rfl, rfl, rfl, fun x => ?_⟩⟩
    rcases item_survivors h hb x with heq | ⟨heq, hfree, hqueue⟩
    · rw [heq]
      exact .same _
    · rw [heq]
      exact Item.alike_fresh (hfunded t b hb x) hfree hqueue

/-! ### Looks -/

theorem Alike.owners_eq (h : s.Alike s') (t : String) (x : Int) :
    s.owners t x = s'.owners t x := by
  unfold Service.owners
  rcases h.paired.block_cases t with ⟨e, he, he'⟩ | ⟨b, b', hb, hb', hblock⟩
  · rw [he, he']
  · rw [hb, hb']
    show Except.ok _ = Except.ok _
    rw [Block.owners_getD, Block.owners_getD, (hblock.item x).owners_eq]

theorem Alike.isLocked_eq (h : s.Alike s') (t : String) (x : Int) :
    s.isLocked t x = s'.isLocked t x := by
  unfold isLocked
  rw [h.owners_eq]

theorem Alike.hasPermit_iff (h : s.Alike s') (d : CallId) : s.HasPermit d ↔ s'.HasPermit d := by
  -- One direction suffices, for all services.
  have hone : ∀ {s s' : Service}, s.Alike s' → s.HasPermit d → s'.HasPermit d := by
    rintro s s' h ⟨t, b, x, hb, hd⟩
    rcases h.block t with ⟨ha, _⟩ | ⟨b₁, b', hb₁, hb', hblock⟩
    · rw [ha] at hb
      cases hb
    · rw [hb₁] at hb
      cases hb
      exact ⟨t, b', x, hb', (hblock.item x).handed_eq ▸ hd⟩
  exact ⟨hone h, hone h.symm⟩

/-- What is shown of a lock, if it is there, shows it free. -/
def ShowsFree (shown : Option Info) : Prop :=
  ∀ i ∈ shown, i.owners = [] ∧ i.availablePermits = i.maxLocks

theorem showsFree_none : ShowsFree none := fun _ hi => nomatch hi

theorem showsFree_some {i : Item} (t : String) (x : Int) (howners : i.owners = ∅)
    (havailable : i.available = i.capacity) : ShowsFree (some (i.info t x)) := by
  intro shown hshown
  cases hshown
  exact ⟨congrArg Roster.members howners, havailable⟩

/-- What two services show of a lock is the same; or both show it free or
do not have it, and where both show it only the last owner can differ. -/
def SameInfo (s s' : Service) (t : String) (x : Int) : Prop :=
  s.info t x = s'.info t x ∨
    ∃ shown shown', s.info t x = .ok shown ∧ s'.info t x = .ok shown' ∧
      ShowsFree shown ∧ ShowsFree shown' ∧
      ∀ i ∈ shown, ∀ i' ∈ shown', i' = { i with lastOwner := i'.lastOwner }

theorem Alike.info (h : s.Alike s') (t : String) (x : Int) : SameInfo s s' t x := by
  have hshow : ∀ {s : Service} {b : Block}, s.block t = .ok b →
      s.info t x = .ok ((b.items.get? x).map fun i => i.info t x) := by
    intro s b hb
    unfold Service.info
    rw [hb]
    rfl
  rcases h.paired.block_cases t with ⟨e, he, he'⟩ | ⟨b, b', hb, hb', hblock⟩
  · refine .inl ?_
    unfold Service.info
    rw [he, he']
  · have hitem := hblock.item x
    unfold SameInfo
    rw [hshow hb, hshow hb']
    cases hi : b.items.get? x with
    | none =>
      cases hi' : b'.items.get? x with
      | none => exact .inl rfl
      | some j =>
        -- The lock is there on the other side only, and unused.
        rw [Block.item_of_get?_eq_none hi, Block.item_of_get? hi'] at hitem
        obtain ⟨howners, havailable⟩ := hitem.free
        exact .inr ⟨_, _, rfl, rfl, showsFree_none, showsFree_some t x howners havailable,
          fun _ hnone => nomatch hnone⟩
    | some i =>
      cases hi' : b'.items.get? x with
      | none =>
        rw [Block.item_of_get? hi, Block.item_of_get?_eq_none hi'] at hitem
        obtain ⟨howners, havailable⟩ := hitem.symm.free
        exact .inr ⟨_, _, rfl, rfl, showsFree_some t x howners havailable, showsFree_none,
          fun _ _ _ hnone => nomatch hnone⟩
      | some j =>
        rw [Block.item_of_get? hi, Block.item_of_get? hi'] at hitem
        rcases hitem.shown with rfl | ⟨howners, havailable, heq⟩
        · exact .inl rfl
        · have hj : j.owners = ∅ ∧ j.available = j.capacity := by
            rw [heq]
            exact ⟨howners, havailable⟩
          refine .inr ⟨_, _, rfl, rfl, showsFree_some t x howners havailable,
            showsFree_some t x hj.1 hj.2, fun shown hshown shown' hshown' => ?_⟩
          cases hshown
          cases hshown'
          rw [heq]
          rfl

end Service

end Backplane.Lock
