import Backplane.Proofs.Lock.Refusal
import Mathlib.Data.List.Induction

/-!
# `Backplane.Proofs.Lock.RoundTrip`: locking a list of ids and unlocking it

A call locks the ids of its list in ascending order, each of them once. An
unlock of the same list goes through it as it is written, repetitions included.
For a user who owns none of the ids and finds a permit of each, the unlock gives
back what the call has taken, and a repeated id is an error and nothing else. The
main statements:

* `Item.giveBack_draw`: what one user draws and gives back is there again.
* `Block.proceed_of_free`: a call that finds a permit of each id draws them all.
* `Service.Midway.unlock`, `Service.Midway.unlocks`: what one unlock, and what
  the unlocks of a list, do in between.
* `Moment.round_trip`: the way there and back, at any moment of any history.

Nobody waits for a lock that has a permit available (`Item.Sound.busy`). So it
does not matter which calls are under way elsewhere.
-/

set_option autoImplicit false

namespace Backplane.Lock

/-! ### Repetitions -/

/-- A list with a repetition has a first one. -/
theorem exists_first_repeat {ids : List Int} (h : ¬ ids.Nodup) :
    ∃ before x after, ids = before ++ x :: after ∧ before.Nodup ∧ x ∈ before := by
  induction ids using List.reverseRecOn with
  | nil => exact absurd List.nodup_nil h
  | append_singleton ids x ih =>
    by_cases hids : ids.Nodup
    · refine ⟨ids, x, [], rfl, hids, ?_⟩
      by_contra hx
      rw [← List.concat_eq_append, List.nodup_concat] at h
      exact h ⟨hx, hids⟩
    · obtain ⟨before, y, after, rfl, hbefore, hy⟩ := ih hids
      exact ⟨before, y, after ++ [x], by simp, hbefore, hy⟩

/-! ### One lock -/

namespace Item

/-- A lock from which a single user has drawn a permit. -/
def draw (i : Item) (u : Int) : Item :=
  { i with available := i.available - 1 }.grant (.ofList [u])

/-- A lock that a single user gives a permit back to. -/
def giveBack (i : Item) (u : Int) : Item × List CallId :=
  { i with owners := i.owners.erase u, held := i.held - 1 }.release 1

/-- The error of a user of a lock, of the type `name` and the id `x`, who is none
of its owners. -/
def notOwning (i : Item) (name : String) (u x : Int) : Error :=
  if i.owners.isEmpty then .notLocked name x else .notOwner name x [u]

/-- A lock as it was, but for its last owner. -/
def lastOwnedBy (i : Item) (u : Int) : Item := { i with lastOwner := some u }

variable {i : Item} {u : Int}

theorem mem_owners_draw {v : Int} : v ∈ (i.draw u).owners ↔ v ∈ i.owners ∨ v = u := by
  refine (owners_grant _ _ v).trans (or_congr_right ?_)
  exact List.mem_singleton

/-- What a user draws and gives back is there again, and nobody is woken. Only
that the user was the last one to draw remains. -/
theorem giveBack_draw {capacity : Nat} (h : i.Sound capacity) (hfree : 0 < i.available)
    (hnew : u ∉ i.owners) : (i.draw u).giveBack u = (i.lastOwnedBy u, []) := by
  have hwaiters : i.waiters = [] := by
    by_contra hwaits
    exact Nat.ne_of_gt hfree (h.busy hwaits)
  have howners : (i.owners.union (.ofList [u])).erase u = i.owners := Roster.erase_insert hnew
  obtain ⟨capacity, available, waiters, handed, owners, held, lastOwner⟩ := i
  subst hwaiters
  have havailable : available - 1 + 1 = available := Nat.sub_add_cancel hfree
  simp only [draw, giveBack, grant, release, howners]
  simp [havailable, lastOwnedBy, Roster.min?]

end Item

/-! ### The way there -/

/-- A user finds a permit of a lock, and owns it not yet. -/
structure Item.FreeFor (i : Item) (u : Int) : Prop where
  new : u ∉ i.owners
  free : 0 < i.available

namespace Block

/-- Locks of a type with single owners, of which a user finds a permit of each of
some ids. -/
structure Offers (b : Block) (t : String) (u : Int) (ids : List Int) : Prop where
  name_eq : b.name = t
  sound : b.Sound
  single : b.allowMulti = false
  free : ∀ x ∈ ids, (b.item x).FreeFor u

/-- A single user has drawn a permit of each of some ids. -/
structure Drawn (b : Block) (u : Int) (ids : List Int) (b' : Block) : Prop where
  same : SameType b b'
  get? : ∀ x, b'.items.get? x = if x ∈ ids then some ((b.item x).draw u) else b.items.get? x

/-- A call of a single user that finds a permit of each of its ids draws them
all, without waiting and without waking anybody. -/
theorem proceed_of_free {u : Int} (name : CallId) (now : Nat) {ids : List Int}
    (hnodup : ids.Nodup) :
    ∀ {b : Block} {c : Call}, c.users = .ofList [u] → (∀ x ∈ ids, (b.item x).FreeFor u) →
      ∃ b', b.proceed name c now ids = (.done true, b', []) ∧ b.Drawn u ids b' := by
  induction ids with
  | nil => exact fun {b c} _ _ => ⟨b, rfl, .refl b, fun x => by simp⟩
  | cons id rest ih =>
    intro b c husers hfree
    obtain ⟨hnot, hrest⟩ := List.nodup_cons.mp hnodup
    obtain ⟨hnew, hpermit⟩ := hfree id List.mem_cons_self
    have hunowned : (b.item id).isOwnedByAny c.users = false := by
      rw [husers, ← Bool.not_eq_true, Item.isOwnedByAny_iff]
      rintro ⟨v, hv, howns⟩
      exact hnew (List.mem_singleton.mp hv ▸ howns)
    have hdraw : ({ b.item id with available := (b.item id).available - 1 }.grant c.users)
        = (b.item id).draw u := by rw [husers, Item.draw]
    have husers' : (c.noteGrant id).users = .ofList [u] := by
      rw [← husers]
      unfold Call.noteGrant
      split <;> rfl
    -- The ids that come are others, so their locks are as they were.
    obtain ⟨b', hproceed, hsame, hget⟩ := ih hrest (b := b.setItem id ((b.item id).draw u)) husers'
      fun x hx => by
        have hne : x ≠ id := fun heq => hnot (heq ▸ hx)
        rw [item_setItem_ne b _ hne]
        exact hfree x (List.mem_cons_of_mem id hx)
    refine ⟨b', ?_, (sameType_setItem b id _).trans hsame, fun x => ?_⟩
    · simp only [proceed, hunowned, Bool.false_eq_true, if_false, Item.takePermit?, if_pos hpermit,
        hdraw]
      exact hproceed
    · rw [hget x]
      by_cases hx : x = id
      · subst hx
        rw [if_neg hnot, if_pos List.mem_cons_self, setItem, Table.get?_insert, if_pos rfl]
      · rw [item_setItem_ne b _ hx, setItem, Table.get?_insert, if_neg hx]
        simp only [List.mem_cons, hx, false_or]

end Block

namespace Service

variable {s s' : Service} {t : String} {b : Block} {u x : Int} {ids back rest : List Int}

/-- A user has drawn permits of some ids of a type, and given some of them
back. Nothing else of the service is another. -/
structure Midway (s : Service) (t : String) (b : Block) (u : Int) (ids back : List Int)
    (s' : Service) : Prop where
  calls_eq : s'.calls = s.calls
  others : ∀ t', t' ≠ t → s'.blocks.get? t' = s.blocks.get? t'
  block : ∃ b', s'.blocks.get? t = some b' ∧ b.SameType b' ∧ ∀ x, b'.items.get? x =
    if x ∈ back then some ((b.item x).lastOwnedBy u)
    else if x ∈ ids then some ((b.item x).draw u)
    else b.items.get? x

/-- A call of a single user that finds a permit of each of its ids leaves the
user in possession of all of them. -/
theorem begin_of_free (h : s.Sound) {name : CallId} (hname : s.calls.get? name = none)
    (hb : s.blocks.get? t = some b) (hoffers : b.Offers t u ids) (timeout : Option Nat)
    (now : Nat) :
    ∃ s', s.begin name ⟨t, ids, .one u, timeout⟩ now = (.ok (.done true), s', []) ∧
      s.Midway t b u ids [] s' := by
  let c := callOf ⟨t, ids, .one u, timeout⟩ (.ofList [u]) now
  have hnodup : c.ids.Nodup := (Roster.ascending_ofList ids).nodup
  have hmem : ∀ x, x ∈ c.ids ↔ x ∈ ids := fun x => Roster.mem_ofList ids x
  obtain ⟨b', hproceed, hsame, hget⟩ := Block.proceed_of_free name now hnodup (c := c) rfl
    fun x hx => hoffers.free x ((hmem x).mp hx)
  have hbname : b'.name = t := hsame.name_eq.trans hoffers.name_eq
  -- The call is over before anybody could see it.
  have hcalls : s.calls.erase name = s.calls := Table.erase_of_get?_eq_none h.calls_ascending hname
  have hrecord : s.record name (.done true, b', [])
      = (.done true, { blocks := s.blocks.insert t b', calls := s.calls }, []) := by
    show (_, (⟨s.blocks.insert b'.name b', s.calls.erase name⟩ : Service), _) = _
    rw [hbname, hcalls]
  refine ⟨{ blocks := s.blocks.insert t b', calls := s.calls }, ?_, rfl, fun t' ht' => ?_, b', ?_,
    hsame, fun x => ?_⟩
  · unfold begin
    rw [resolve_one hb]
    show (let p := s.record name (b.proceed name c now c.ids); (Except.ok p.1, p.2.1, p.2.2)) = _
    rw [hproceed, hrecord]
  · rw [Table.get?_insert, if_neg ht']
  · rw [Table.get?_insert, if_pos rfl]
  · rw [hget x]
    simp only [hmem, List.not_mem_nil, if_false]

/-- Before anything is given back, the user is an owner of the ids besides the
owners that there were, and the other locks are as they were. -/
theorem Midway.locked (h : Midway s t b u ids [] s') :
    ∃ b', s'.blocks.get? t = some b' ∧ (∀ x, x ∉ ids → b'.items.get? x = b.items.get? x) ∧
      ∀ x v, v ∈ (b'.item x).owners ↔ v ∈ (b.item x).owners ∨ x ∈ ids ∧ v = u := by
  obtain ⟨b', hb', hsame, hget⟩ := h.block
  simp only [List.not_mem_nil, if_false] at hget
  refine ⟨b', hb', fun x hx => by rw [hget x, if_neg hx], fun x v => ?_⟩
  by_cases hx : x ∈ ids
  · have hitem : b'.item x = (b.item x).draw u := by
      rw [Block.item, hget x, if_pos hx, Option.getD_some]
    rw [hitem, Item.mem_owners_draw]
    simp only [hx, true_and]
  · have hitem : b'.item x = b.item x := by
      rw [Block.item, hget x, if_neg hx, hsame.maxLocks_eq]
      rfl
    rw [hitem]
    simp only [hx, false_and, or_false]

/-- Once all is given back, the locks are as they were, but for the last owner. -/
theorem Midway.unlocked (h : Midway s t b u ids ids s') :
    ∃ b', s'.blocks.get? t = some b' ∧ ∀ x, b'.items.get? x =
      if x ∈ ids then some { b.item x with lastOwner := some u } else b.items.get? x := by
  obtain ⟨b', hb', -, hget⟩ := h.block
  refine ⟨b', hb', fun x => (hget x).trans ?_⟩
  split <;> rfl

/-! ### The way back -/

/-- An unlock of a single user ends the user's grant, if there is one. -/
theorem unlock_one {i : Item} (hb : s.blocks.get? t = some b) (hsingle : b.allowMulti = false)
    (hi : b.items.get? x = some i) :
    s.unlock t x (.one u) =
      if u ∈ i.owners then (.ok (), s.setItem b x (i.giveBack u).1, (i.giveBack u).2)
      else (.error (i.notOwning b.name u x), s, []) := by
  unfold unlock unlockItem
  rw [resolve_one hb]
  by_cases hu : u ∈ i.owners
  · have hrelease : i.releaseFirst? (.ofList [u]) = some (i.giveBack u) := by
      unfold Item.releaseFirst? Item.releaseOwner?
      rw [Roster.members_ofList_singleton, List.findSome?_cons, if_pos hu]
      rfl
    simp only [hi, hsingle, Bool.false_eq_true, if_false, hrelease, if_pos hu]
  · have hrelease : i.releaseFirst? (.ofList [u]) = none := by
      unfold Item.releaseFirst? Item.releaseOwner?
      rw [Roster.members_ofList_singleton, List.findSome?_cons, if_neg hu]
      rfl
    simp only [hi, hsingle, Bool.false_eq_true, if_false, hrelease, if_neg hu, Item.notOwning]
    cases i.owners.isEmpty <;> rfl

/-- One unlock in between. An id that was given back already is an error, and
any other is given back now. -/
theorem Midway.unlock (h : Midway s t b u ids back s') (hoffers : b.Offers t u ids) (hx : x ∈ ids) :
    ∃ s'', s'.unlock t x (.one u)
        = (if x ∈ back then .error ((b.item x).notOwning t u x) else .ok (), s'', []) ∧
      Midway s t b u ids (back ++ [x]) s'' := by
  obtain ⟨b', hb', hsame, hget⟩ := h.block
  have hsingle : b'.allowMulti = false := hsame.allowMulti_eq.trans hoffers.single
  have hname : b'.name = t := hsame.name_eq.trans hoffers.name_eq
  obtain ⟨hnew, hpermit⟩ := hoffers.free x hx
  by_cases hback : x ∈ back
  · -- The user is no owner any more, and nothing changes.
    have hi := hget x
    rw [if_pos hback] at hi
    refine ⟨s', ?_, h.calls_eq, h.others, b', hb', hsame, fun y => ?_⟩
    · have hgone : u ∉ ((b.item x).lastOwnedBy u).owners := hnew
      rw [unlock_one hb' hsingle hi, if_neg hgone, if_pos hback, hname]
      rfl
    · rw [hget y]
      have hmem : y ∈ back ++ [x] ↔ y ∈ back := by
        rw [List.mem_append, List.mem_singleton]
        exact or_iff_left_of_imp fun heq => heq ▸ hback
      simp only [hmem]
  · -- The user is one still, and the permit is available again.
    have hi := hget x
    rw [if_neg hback, if_pos hx] at hi
    have hgive := Item.giveBack_draw (hoffers.sound.item x) hpermit hnew
    let b'' := b'.setItem x ((b.item x).lastOwnedBy u)
    have hset : s'.setItem b' x ((b.item x).lastOwnedBy u)
        = { s' with blocks := s'.blocks.insert t b'' } := by
      rw [Service.setItem, hname]
    have hblocks : ∀ t', (s'.blocks.insert t b'').get? t' = if t' = t then some b'' else
        s'.blocks.get? t' := fun t' => Table.get?_insert s'.blocks t t' b''
    refine ⟨{ s' with blocks := s'.blocks.insert t b'' }, ?_, h.calls_eq, fun t' ht' => ?_, b'',
      ?_, hsame.trans (Block.sameType_setItem b' x _), fun y => ?_⟩
    · have howns : u ∈ ((b.item x).draw u).owners := Item.mem_owners_draw.mpr (.inr rfl)
      rw [unlock_one hb' hsingle hi, if_pos howns, if_neg hback, hgive, hset]
    · exact (hblocks t').trans ((if_neg ht').trans (h.others t' ht'))
    · exact (hblocks t).trans (if_pos rfl)
    · show (b'.items.insert x _).get? y = _
      rw [Table.get?_insert, hget y]
      by_cases hy : y = x
      · subst hy
        simp
      · simp [hy]

/-- The unlocks of a list in between. None of them is an error, if nothing is
given back twice. -/
theorem Midway.unlocks (h : Midway s t b u ids back s') (hoffers : b.Offers t u ids)
    (hrest : rest ⊆ ids) (outcome : Except Error Unit) :
    ∃ outcome' s'', rest.foldl (unlockStep t (.one u)) (outcome, s', []) = (outcome', s'', []) ∧
      Midway s t b u ids (back ++ rest) s'' ∧ ((back ++ rest).Nodup → outcome' = outcome) := by
  induction rest generalizing back s' outcome with
  | nil =>
    rw [List.append_nil]
    exact ⟨outcome, s', rfl, h, fun _ => rfl⟩
  | cons x rest ih =>
    obtain ⟨hx, hrest⟩ := List.cons_subset.mp hrest
    obtain ⟨s₁, hunlock, h₁⟩ := h.unlock hoffers hx
    obtain ⟨outcome', s'', hfold, h₂, hok⟩ := ih h₁ hrest
      (firstError outcome (if x ∈ back then .error ((b.item x).notOwning t u x) else .ok ()))
    rw [List.append_assoc, List.singleton_append] at h₂ hok
    refine ⟨outcome', s'', ?_, h₂, fun hnodup => ?_⟩
    · rw [List.foldl_cons, unlockStep]
      simp only [hunlock, List.append_nil]
      exact hfold
    · have hback : x ∉ back := fun hmem =>
        (List.nodup_append.mp hnodup).2.2 x hmem x List.mem_cons_self rfl
      rw [hok hnodup, if_neg hback]
      cases outcome <;> rfl

/-- An error remains the outcome, whatever is unlocked after it. -/
theorem foldl_unlockStep_of_error (t : String) (p : Party) (ids : List Int) {e : Error}
    {acc : Except Error Unit × Service × List CallId} (h : acc.1 = .error e) :
    (ids.foldl (unlockStep t p) acc).1 = .error e := by
  induction ids generalizing acc with
  | nil => exact h
  | cons x rest ih =>
    refine ih ?_
    rw [unlockStep, h]
    rfl

/-- A user who has drawn a permit of each id of a list unlocks the list. -/
theorem Midway.unlockAll (h : Midway s t b u ids [] s') (hoffers : b.Offers t u ids) :
    ∃ outcome s'', s'.unlockAll t ids (.one u) = (outcome, s'', []) ∧
      Midway s t b u ids ids s'' ∧ (ids.Nodup → outcome = .ok ()) ∧
      ∀ before x after, ids = before ++ x :: after → before.Nodup → x ∈ before →
        outcome = .error ((b.item x).notOwning t u x) := by
  obtain ⟨b', hb', -⟩ := h.block
  obtain ⟨outcome, s'', hfold, hmidway, hok⟩ :=
    h.unlocks hoffers (List.Subset.refl ids) (.ok ())
  rw [List.nil_append] at hmidway hok
  refine ⟨outcome, s'', ?_, hmidway, hok, fun before x after heq hbefore hx => ?_⟩
  · rw [unlockAll_eq, resolve_one hb']
    exact hfold
  · -- The unlocks up to the repetition succeed, and this one does not.
    have hsubset : before ⊆ ids := fun y hy => heq ▸ List.mem_append_left _ hy
    have hmem : x ∈ ids := hsubset hx
    obtain ⟨outcome₁, s₁, hfold₁, hmidway₁, hok₁⟩ :=
      h.unlocks hoffers hsubset (.ok ())
    rw [List.nil_append] at hmidway₁ hok₁
    obtain ⟨s₂, hunlock, -⟩ := hmidway₁.unlock hoffers hmem
    rw [if_pos hx] at hunlock
    have herror : (unlockStep t (.one u) (outcome₁, s₁, []) x).1
        = .error ((b.item x).notOwning t u x) := by
      rw [unlockStep, hok₁ hbefore, hunlock]
      rfl
    have hlast := foldl_unlockStep_of_error t (.one u) after herror
    rw [← hfold₁, ← List.foldl_cons, ← List.foldl_append, ← heq, hfold] at hlast
    exact hlast

end Service

namespace Moment

/-- A single user who owns none of the ids of a list, and finds a permit of each
of them, locks the list and unlocks it again. The call is over at once, makes
the user an owner of just these ids, and touches no other lock. The unlock gives
every lock its owners and permits back. It succeeds if and only if no id is
repeated, and otherwise its error is that of the first repetition. -/
theorem round_trip {es : List Event} {n : Nat} {t : String} {b : Block} {ids : List Int} {u : Int}
    (hb : (after es n).service.blocks.get? t = some b) (hsingle : b.allowMulti = false)
    (hfree : ∀ x ∈ ids, u ∉ (b.item x).owners ∧ 0 < (b.item x).available) (timeout : Option Nat) :
    let m := after es n
    let locking : Event := .request ⟨t, ids, .one u, timeout⟩
    let unlocking : Event := .unlockAll t ids (.one u)
    let locked := m.step locking
    let unlocked := locked.step unlocking
    (m.result locking = .ran (.ok (.done true)) ∧ m.woken locking = [] ∧
      locked.service.calls = m.service.calls ∧
      (∀ t', t' ≠ t → locked.service.blocks.get? t' = m.service.blocks.get? t') ∧
      ∃ b', locked.service.blocks.get? t = some b' ∧
        (∀ x, x ∉ ids → b'.items.get? x = b.items.get? x) ∧
        ∀ x v, v ∈ (b'.item x).owners ↔ v ∈ (b.item x).owners ∨ x ∈ ids ∧ v = u) ∧
    (locked.woken unlocking = [] ∧ unlocked.service.calls = m.service.calls ∧
      (∀ t', t' ≠ t → unlocked.service.blocks.get? t' = m.service.blocks.get? t') ∧
      ∃ b', unlocked.service.blocks.get? t = some b' ∧
        ∀ x, b'.items.get? x =
          if x ∈ ids then some { b.item x with lastOwner := some u } else b.items.get? x) ∧
    (locked.result unlocking = .unlocked (.ok ()) ↔ ids.Nodup) ∧
    ∀ before x after, ids = before ++ x :: after → before.Nodup → x ∈ before →
      locked.result unlocking = .unlocked (.error
        (if (b.item x).owners.isEmpty then .notLocked t x else .notOwner t x [u])) := by
  intro m locking unlocking locked unlocked
  have hsound := sound_after es n
  have hoffers : b.Offers t u ids := ⟨hsound.service.name_eq hb, hsound.service.block hb, hsingle,
    fun x hx => ⟨(hfree x hx).1, (hfree x hx).2⟩⟩
  obtain ⟨s₁, hbegin, h₁⟩ := Service.begin_of_free hsound.service hsound.nextCall_free hb hoffers
    timeout m.now
  have hlocked : locked.service = s₁ := congrArg (fun r => r.2.1) hbegin
  obtain ⟨outcome, s₂, hunlock, h₂, hok, herror⟩ := h₁.unlockAll hoffers
  rw [← hlocked] at hunlock
  have hunlocked : unlocked.service = s₂ := congrArg (fun r => r.2.1) hunlock
  have hresult : locked.result unlocking = .unlocked outcome :=
    congrArg (fun r : Except Error Unit × Service × List CallId => Result.unlocked r.1) hunlock
  have hgranted : m.result locking = .ran (.ok (.done true)) :=
    congrArg (fun r : Except Error Progress × Service × List CallId => Result.ran r.1) hbegin
  rw [hresult, hunlocked, hlocked]
  refine ⟨⟨hgranted, congrArg (fun r => r.2.2) hbegin, h₁.calls_eq, h₁.others, h₁.locked⟩,
    ⟨congrArg (fun r => r.2.2) hunlock, h₂.calls_eq, h₂.others, h₂.unlocked⟩,
    ⟨fun hresult => ?_, fun hnodup => congrArg Result.unlocked (hok hnodup)⟩,
    fun before x after heq hbefore hx => ?_⟩
  · by_contra hrepeat
    obtain ⟨before, x, after, heq, hbefore, hx⟩ := exists_first_repeat hrepeat
    rw [herror before x after heq hbefore hx] at hresult
    cases hresult
  · rw [herror before x after heq hbefore hx, Item.notOwning]

/-- A type with two permits for each lock, and a user who owns one of them. -/
def sharedWards : List Event :=
  [.declare ⟨"ward", 2, false⟩, .request ⟨"ward", [1], .one 20, none⟩]

/-- Another user locks a list with a repetition and unlocks it again. The call is
over at once, and the unlock returns an error. -/
theorem sharedWards_round_trip :
    let m := after sharedWards 2
    let locking : Event := .request ⟨"ward", [2, 1, 2], .one 10, none⟩
    let unlocking : Event := .unlockAll "ward" [2, 1, 2] (.one 10)
    m.result locking = .ran (.ok (.done true)) ∧
      (m.step locking).result unlocking = .unlocked (.error (.notLocked "ward" 2)) := by
  obtain ⟨⟨hlock, -⟩, -, -, herror⟩ :=
    @round_trip sharedWards 2 "ward" _ [2, 1, 2] 10 rfl rfl (by decide) none
  exact ⟨hlock, herror [2, 1] 2 [] rfl (by decide) (by decide)⟩

end Moment

end Backplane.Lock
