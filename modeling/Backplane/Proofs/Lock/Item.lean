import Backplane.Lock.Item
import Backplane.Proofs.Data.Roster
import Mathlib.Data.Int.Order.Basic
import Mathlib.Logic.Relation

/-!
# `Backplane.Proofs.Lock.Item`: what can happen to one lock

Every operation of the lock service changes a lock by a few kinds of
moves. `Item.Move` lists them with the conditions under which the service
makes them, so that a property of locks is proved once for each move and
not once for each operation. The main statements:

* `Move.sound`: capacity, owners and queue stay in order under every
  move.
* `Move.balanced`: on a lock for single owners, permits and owners stay
  in balance as long as no rollback is stray.
* `supply_revoke_stray`: a stray rollback makes a permit out of nothing.

A rollback is stray on a lock that its users do not own and somebody else
does: its own grant is gone, and the permit that it gives back is another
owner's.
-/

set_option autoImplicit false

namespace Backplane.Lock

/-- The sets of users for whom a lock can be asked: at least one user, and
only one if grants are not shared. -/
structure Fits (shared : Bool) (users : Users) : Prop where
  ne_nil : users.members ≠ []
  single : shared = false → ∃ u, users.members = [u]

namespace Item

open Relation (ReflTransGen)

/-- The calls that have a place in the queue of a lock: they wait, or they
have been handed a permit and have not run since. -/
def queue (i : Item) : List CallId := i.waiters ++ i.handed

/-- Whether taking a grant back from users hits somebody else's permit. -/
def Stray (i : Item) (users : Users) : Prop :=
  i.isOwnedByAny users = false ∧ i.owners.isEmpty = false

instance (i : Item) (users : Users) : Decidable (i.Stray users) :=
  inferInstanceAs (Decidable (_ ∧ _))

theorem not_stray_of_isOwnedByAny {i : Item} {users : Users}
    (h : i.isOwnedByAny users = true) : ¬ i.Stray users := by
  intro hstray
  rw [hstray.1] at h
  cases h

/-- One change of a lock whose grants are `shared` or not. Rollbacks are
restricted to those that `revocable` allows. -/
inductive Move (shared : Bool) (revocable : Item → Users → Prop) (i : Item) : Item → Prop where
  /-- A call takes an available permit. -/
  | pass (users : Users) (hfits : Fits shared users) (hfree : 0 < i.available)
      (hnew : i.isOwnedByAny users = false) :
      Move shared revocable i ({ i with available := i.available - 1 }.grant users)
  /-- A call joins the queue. -/
  | enqueue (c : CallId) (hbusy : i.available = 0) (hnew : c ∉ i.queue) :
      Move shared revocable i (i.enqueue c)
  /-- A call that was handed a permit makes it a grant. -/
  | accept (c : CallId) (users : Users) (hfits : Fits shared users) (hhanded : c ∈ i.handed)
      (hnew : i.isOwnedByAny users = false) : Move shared revocable i ((i.unhand c).grant users)
  /-- A call that was handed a permit finds that it needs none. -/
  | handBack (c : CallId) (hhanded : c ∈ i.handed) :
      Move shared revocable i ((i.unhand c).release 1).1
  /-- A call leaves the queue without a permit. -/
  | leave (c : CallId) (hwaits : c ∉ i.handed) : Move shared revocable i (i.leave c)
  /-- A call takes its grant back. -/
  | revoke (users : Users) (hfits : Fits shared users) (hrevocable : revocable i users) :
      Move shared revocable i (i.revoke users).1
  /-- An owner unlocks. -/
  | unlock (u : Int) (hshared : shared = false) (howns : u ∈ i.owners) :
      Move shared revocable i
        ({ i with owners := i.owners.erase u, held := i.held - 1 }.release 1).1
  /-- An owner unlocks for all owners. -/
  | unlockShared (users : Users) (hshared : shared = true) (howns : i.isOwnedByAny users = true) :
      Move shared revocable i ({ i with owners := ∅, held := 0 }.release i.held).1
  /-- A free lock that no call needs is collected, and made anew when it is
  looked at the next time. -/
  | collect (hfree : i.isFree = true) (hqueue : i.queue = []) :
      Move shared revocable i (fresh i.capacity)

/-! ### The fields after each operation -/

@[simp] theorem release_owners (i : Item) (n : Nat) : (i.release n).1.owners = i.owners := rfl

/-- A rollback gives a permit back if a grant is left. -/
theorem revoke_fst (i : Item) (users : Users) :
    (i.revoke users).1
      = if 0 < i.held then
          ({ i with owners := i.owners.diff users, held := i.held - 1 }.release 1).1
        else { i with owners := i.owners.diff users } := by
  show (if 0 < i.held then _ else _ : Item × List CallId).1 = _
  split <;> rfl

@[simp] theorem revoke_owners (i : Item) (users : Users) :
    (i.revoke users).1.owners = i.owners.diff users := by
  rw [revoke_fst]
  split <;> rfl

theorem isOwnedByAny_iff (i : Item) (users : Users) :
    i.isOwnedByAny users = true ↔ ∃ u ∈ users.members, u ∈ i.owners :=
  Roster.meets_iff users i.owners

theorem isFree_iff (i : Item) :
    i.isFree = true ↔ i.available = i.capacity ∧ i.owners.members = [] := by
  rw [isFree, Bool.and_eq_true, beq_iff_eq, Roster.isEmpty_iff]

/-- A lock that is free has no owner. -/
theorem not_mem_owners_of_isFree {i : Item} (hfree : i.isFree = true) (u : Int) : u ∉ i.owners :=
  List.eq_nil_iff_forall_not_mem.mp ((isFree_iff i).mp hfree).2 u

/-- No user of a set that owns nothing is an owner. -/
theorem not_mem_owners {i : Item} {users : Users} (h : i.isOwnedByAny users = false) {u : Int}
    (hu : u ∈ users.members) : u ∉ i.owners := by
  intro ho
  have htrue := (isOwnedByAny_iff i users).mpr ⟨u, hu, ho⟩
  rw [h] at htrue
  cases htrue

/-- A release moves calls within the queue. -/
theorem queue_release (i : Item) (n : Nat) : (i.release n).1.queue.Perm i.queue := by
  have hswap : (i.waiters.drop n ++ (i.handed ++ i.waiters.take n)).Perm
      (i.handed ++ i.waiters.take n ++ i.waiters.drop n) := List.perm_append_comm
  rw [List.append_assoc, List.take_append_drop] at hswap
  exact hswap.trans List.perm_append_comm

/-- A rollback moves calls within the queue. -/
theorem queue_revoke (i : Item) (users : Users) : (i.revoke users).1.queue.Perm i.queue := by
  rw [revoke_fst]
  split
  · exact queue_release _ 1
  · exact List.Perm.refl _

/-- A call joins the queue and nobody else does. -/
theorem mem_queue_enqueue (i : Item) (c d : CallId) :
    d ∈ (i.enqueue c).queue ↔ d ∈ i.queue ∨ d = c := by
  simp only [queue, enqueue, List.mem_append, List.mem_singleton]
  exact or_right_comm

/-- A call gives its permit up, and its place in the queue with it. -/
theorem mem_queue_unhand {i : Item} (hq : i.queue.Nodup) {c : CallId} (hc : c ∈ i.handed)
    (d : CallId) : d ∈ (i.unhand c).queue ↔ d ∈ i.queue ∧ d ≠ c := by
  -- The call has one place in the queue, so it does not wait besides.
  have hnot : c ∉ i.waiters := fun hw => (List.nodup_append.mp hq).2.2 c hw c hc rfl
  simp only [queue, unhand, List.mem_append, List.mem_filter, decide_eq_true_eq]
  constructor
  · rintro (hw | ⟨hh, hne⟩)
    · exact ⟨.inl hw, fun heq => hnot (heq ▸ hw)⟩
    · exact ⟨.inr hh, hne⟩
  · rintro ⟨hw | hh, hne⟩
    · exact .inl hw
    · exact .inr ⟨hh, hne⟩

/-- A call leaves the queue and nobody else does. -/
theorem mem_queue_leave {i : Item} {c : CallId} (hc : c ∉ i.handed) (d : CallId) :
    d ∈ (i.leave c).queue ↔ d ∈ i.queue ∧ d ≠ c := by
  simp only [queue, leave, List.mem_append, List.mem_filter, decide_eq_true_eq]
  constructor
  · rintro (⟨hw, hne⟩ | hh)
    · exact ⟨.inl hw, hne⟩
    · exact ⟨.inr hh, fun heq => hc (heq ▸ hh)⟩
  · rintro ⟨hw | hh, hne⟩
    · exact .inl ⟨hw, hne⟩
    · exact .inr hh

/-! ### Locks in order -/

/-- A lock in order: it has the capacity of its type, its owners are listed
once, no call has two places in its queue, and nobody waits while a permit
is available. -/
structure Sound (capacity : Nat) (i : Item) : Prop where
  capacity_eq : i.capacity = capacity
  owners_ascending : i.owners.Ascending
  queue_nodup : i.queue.Nodup
  busy : i.waiters ≠ [] → i.available = 0

theorem sound_fresh (capacity : Nat) : Sound capacity (fresh capacity) where
  capacity_eq := rfl
  owners_ascending := Roster.ascending_empty
  queue_nodup := List.nodup_nil
  busy h := absurd rfl h

/-- A release leaves a permit available only if nobody waits for it. -/
theorem Sound.release {capacity : Nat} {i : Item} (h : Sound capacity i) (n : Nat) :
    Sound capacity (i.release n).1 where
  capacity_eq := h.capacity_eq
  owners_ascending := h.owners_ascending
  queue_nodup := (queue_release i n).nodup_iff.mpr h.queue_nodup
  busy hw := by
    -- Somebody still waits, so every permit of the release was handed on.
    have hlen : n < i.waiters.length := by
      by_contra hle
      exact hw (List.drop_eq_nil_of_le (Nat.not_lt.mp hle))
    have hbusy := h.busy (List.ne_nil_of_length_pos (Nat.lt_of_le_of_lt (Nat.zero_le n) hlen))
    show i.available + (n - (i.waiters.take n).length) = 0
    rw [hbusy, List.length_take, Nat.min_eq_left (Nat.le_of_lt hlen), Nat.sub_self]

/-- Only the owners and the grants of a lock change. -/
theorem Sound.withOwners {capacity : Nat} {i : Item} (h : Sound capacity i) {owners : Users}
    (ho : owners.Ascending) (held : Nat) : Sound capacity { i with owners, held } :=
  { h with owners_ascending := ho }

theorem Sound.grant {capacity : Nat} {i : Item} (h : Sound capacity i) (users : Users) :
    Sound capacity (i.grant users) :=
  { h with owners_ascending := h.owners_ascending.union users }

theorem Sound.unhand {capacity : Nat} {i : Item} (h : Sound capacity i) (c : CallId) :
    Sound capacity (i.unhand c) :=
  { h with
    queue_nodup := h.queue_nodup.sublist
      ((List.Sublist.refl i.waiters).append List.filter_sublist) }

theorem Sound.revoke {capacity : Nat} {i : Item} (h : Sound capacity i) (users : Users) :
    Sound capacity (i.revoke users).1 := by
  have hdiff := h.owners_ascending.diff users
  rw [revoke_fst]
  split
  · exact (h.withOwners hdiff _).release 1
  · exact h.withOwners hdiff _

/-- Every move keeps a lock in order. -/
theorem Move.sound {shared : Bool} {revocable : Item → Users → Prop} {capacity : Nat} {i j : Item}
    (hm : Move shared revocable i j) (h : Sound capacity i) : Sound capacity j := by
  cases hm with
  | pass users _ hfree _ =>
    -- A permit was available, so nobody waits for the one that is taken.
    have hnone : i.waiters = [] := by
      by_contra hw
      rw [h.busy hw] at hfree
      exact absurd hfree (Nat.lt_irrefl 0)
    have hs : Sound capacity { i with available := i.available - 1 } :=
      ⟨h.capacity_eq, h.owners_ascending, h.queue_nodup, fun hw => absurd hnone hw⟩
    exact hs.grant users
  | enqueue c hbusy hnew =>
    refine { h with queue_nodup := ?_, busy := fun _ => hbusy }
    have hperm : (i.enqueue c).queue.Perm (c :: i.queue) := by
      show (i.waiters ++ [c] ++ i.handed).Perm (c :: (i.waiters ++ i.handed))
      rw [List.append_assoc]
      exact List.perm_middle
    exact hperm.nodup_iff.mpr (List.nodup_cons.mpr ⟨hnew, h.queue_nodup⟩)
  | accept c users _ _ _ => exact (h.unhand c).grant users
  | handBack c _ => exact (h.unhand c).release 1
  | leave c _ =>
    refine { h with queue_nodup := ?_, busy := fun hw => h.busy fun hnil => hw ?_ }
    · exact h.queue_nodup.sublist (List.filter_sublist.append (List.Sublist.refl i.handed))
    · show i.waiters.filter _ = []
      rw [hnil, List.filter_nil]
  | revoke users _ _ => exact h.revoke users
  | unlock u _ _ => exact (h.withOwners (h.owners_ascending.erase u) _).release 1
  | unlockShared _ _ _ => exact (h.withOwners Roster.ascending_empty _).release _
  | collect _ _ => exact h.capacity_eq ▸ sound_fresh i.capacity

/-- A lock that is moved any number of times stays in order. -/
theorem sound_of_moves {shared : Bool} {revocable : Item → Users → Prop} {capacity : Nat}
    {i j : Item} (hm : ReflTransGen (Move shared revocable) i j) (h : Sound capacity i) :
    Sound capacity j := by
  induction hm with
  | refl => exact h
  | tail _ hlast ih => exact hlast.sound ih

/-! ### Permits and owners in balance -/

/-- A lock for single owners in balance: one grant for each owner, and
every other permit available or in the hand of a call. -/
structure Balanced (i : Item) : Prop where
  held_eq : i.held = i.owners.members.length
  supply_eq : i.supply + i.owners.members.length = i.capacity

theorem balanced_fresh (capacity : Nat) : Balanced (fresh capacity) := ⟨rfl, rfl⟩

/-- A call that gives its permit up takes it out of the supply. -/
theorem supply_unhand {i : Item} (hq : i.queue.Nodup) {c : CallId} (hc : c ∈ i.handed) :
    (i.unhand c).supply + 1 = i.supply := by
  have hnodup : i.handed.Nodup := (List.nodup_append.mp hq).2.1
  have hlen : (i.handed.filter (· ≠ c)).length + 1 = i.handed.length := by
    have heq : i.handed.filter (· ≠ c) = i.handed.erase c := by
      rw [hnodup.erase_eq_filter]
      exact List.filter_congr fun d _ => by simp [bne, beq_eq_decide]
    rw [heq, List.length_erase_of_mem hc]
    exact Nat.sub_add_cancel (List.length_pos_of_mem hc)
  show i.available + (i.handed.filter (· ≠ c)).length + 1 = i.available + i.handed.length
  rw [Nat.add_assoc, hlen]

/-- A grant for one user makes one owner more. -/
theorem length_owners_grant {i : Item} {users : Users} {u : Int} (hu : users.members = [u])
    (hnew : i.isOwnedByAny users = false) :
    (i.grant users).owners.members.length = i.owners.members.length + 1 := by
  have hnot : u ∉ i.owners := not_mem_owners hnew (hu ▸ List.mem_singleton_self u)
  show (users.members.foldl Roster.insert i.owners).members.length = _
  rw [hu]
  exact Roster.length_insert hnot

/-- Taking a set of one user out of the owners takes this user out. -/
theorem members_diff_single {s users : Users} {u : Int} (hu : users.members = [u]) :
    s.diff users = s.erase u := by
  show Roster.mk (s.members.filter fun a => ¬ a ∈ users.members) = ⟨s.members.filter (· ≠ u)⟩
  rw [hu]
  simp only [List.mem_singleton, ne_eq]

/-- An owner's grant ends: one owner less and one permit more. -/
theorem Balanced.unlock {capacity : Nat} {i : Item} (h : Balanced i) (hs : Sound capacity i)
    {u : Int} (hu : u ∈ i.owners) :
    Balanced ({ i with owners := i.owners.erase u, held := i.held - 1 }.release 1).1 := by
  have hlen := Roster.length_erase hs.owners_ascending hu
  have hheld := h.held_eq
  have hsupply := h.supply_eq
  constructor
  · show i.held - 1 = (i.owners.erase u).members.length
    omega
  · rw [supply_release]
    show i.supply + 1 + (i.owners.erase u).members.length = i.capacity
    omega

/-- A rollback that is not stray keeps the balance. -/
theorem Balanced.revoke {capacity : Nat} {i : Item} (h : Balanced i) (hs : Sound capacity i)
    {users : Users} (hf : Fits false users) (hr : ¬ i.Stray users) :
    Balanced (i.revoke users).1 := by
  obtain ⟨u, hu⟩ := hf.single rfl
  cases hown : i.isOwnedByAny users with
  | true =>
    obtain ⟨v, hv, hmem⟩ := (isOwnedByAny_iff i users).mp hown
    rw [hu, List.mem_singleton] at hv
    subst hv
    have hpos : 0 < i.held := h.held_eq ▸ List.length_pos_of_mem hmem
    rw [revoke_fst, members_diff_single hu, if_pos hpos]
    exact h.unlock hs hmem
  | false =>
    -- Nobody owns the lock, so no permit is given back.
    have hempty : i.owners.members = [] := by
      rw [← Roster.isEmpty_iff]
      by_contra hne
      exact hr ⟨hown, Bool.eq_false_iff.mpr hne⟩
    have hheld : i.held = 0 := by rw [h.held_eq, hempty, List.length_nil]
    have hsame : i.owners.diff users = i.owners := by
      show Roster.mk (i.owners.members.filter _) = i.owners
      rw [hempty, List.filter_nil, ← hempty]
    rw [revoke_fst, hsame, if_neg (Nat.not_lt.mpr (Nat.le_of_eq hheld))]
    exact h

/-- Every move keeps the balance of a lock for single owners, provided that
no rollback is stray. -/
theorem Move.balanced {capacity : Nat} {i j : Item}
    (hm : Move false (fun i users => ¬ i.Stray users) i j) (hs : Sound capacity i)
    (h : Balanced i) : Balanced j := by
  have hheld := h.held_eq
  have hsupply := h.supply_eq
  cases hm with
  | pass users hfits hfree hnew =>
    obtain ⟨u, hu⟩ := hfits.single rfl
    have hlen := length_owners_grant hu hnew
    have hless : { i with available := i.available - 1 }.supply + 1 = i.supply := by
      show i.available - 1 + i.handed.length + 1 = i.available + i.handed.length
      omega
    constructor
    · show i.held + 1 = (i.grant users).owners.members.length
      omega
    · show { i with available := i.available - 1 }.supply
        + (i.grant users).owners.members.length = i.capacity
      omega
  | enqueue c _ _ => exact ⟨hheld, hsupply⟩
  | accept c users hfits hhanded hnew =>
    obtain ⟨u, hu⟩ := hfits.single rfl
    have hlen := length_owners_grant hu hnew
    have hless := supply_unhand hs.queue_nodup hhanded
    constructor
    · show i.held + 1 = (i.grant users).owners.members.length
      omega
    · show (i.unhand c).supply + (i.grant users).owners.members.length = i.capacity
      omega
  | handBack c hhanded =>
    have hless := supply_unhand hs.queue_nodup hhanded
    refine ⟨hheld, ?_⟩
    rw [supply_release]
    show (i.unhand c).supply + 1 + i.owners.members.length = i.capacity
    omega
  | leave c _ => exact ⟨hheld, hsupply⟩
  | revoke users hfits hr => exact h.revoke hs hfits hr
  | unlock u _ howns => exact h.unlock hs howns
  | unlockShared _ hshared _ => cases hshared
  | collect _ _ => exact balanced_fresh i.capacity

/-- So does any number of moves. -/
theorem balanced_of_moves {capacity : Nat} {i j : Item}
    (hm : ReflTransGen (Move false fun i users => ¬ i.Stray users) i j) (hs : Sound capacity i)
    (h : Balanced i) : Balanced j := by
  induction hm with
  | refl => exact h
  | tail hearlier hlast ih => exact hlast.balanced (sound_of_moves hearlier hs) ih

/-- A stray rollback on a lock in balance makes a permit out of nothing. -/
theorem supply_revoke_stray {i : Item} (h : Balanced i) {users : Users} (hs : i.Stray users) :
    (i.revoke users).1.supply + (i.revoke users).1.owners.members.length = i.capacity + 1 := by
  -- The lock has an owner, so it counts a grant that can be taken back.
  have hpos : 0 < i.held := by
    rw [h.held_eq]
    refine List.length_pos_iff.mpr fun hnil => ?_
    rw [← Roster.isEmpty_iff, hs.2] at hnil
    cases hnil
  -- But none of the users is an owner, so no owner goes with the grant.
  have hsame : i.owners.diff users = i.owners := by
    show Roster.mk (i.owners.members.filter _) = i.owners
    rw [List.filter_eq_self.mpr]
    intro u hu
    rw [decide_eq_true_eq]
    exact fun hmem => not_mem_owners hs.1 hmem hu
  have hsupply := h.supply_eq
  rw [revoke_fst, hsame, if_pos hpos, supply_release, release_owners]
  show i.supply + 1 + i.owners.members.length = i.capacity + 1
  omega

end Item

end Backplane.Lock
