import Backplane.Proofs.Lock.History

/-!
# `Backplane.Proofs.Lock.Supply`: permits are never lost

A permit of a lock is available, in the hand of a call, or counted as held
by a grant. On types with shared grants these three always make up the
capacity. On types for single owners a rollback can hit a grant that is
not its own, and an unlock can then find that no grant is counted any
more; both can make a permit too many, and neither takes one away.
`Item.Funded` states this for one lock. The main statements:

* `Move.funded`: every move keeps a lock funded, stray rollbacks included.
* `funded_after`: all locks are funded at every moment of every history.
* `Funded.held_of_isFree`: a free lock counts no grant, so nothing is left
  of what has happened to it.

A lock without supply has an owner. This cannot be read off the counts,
because a rollback of a shared grant can take all owners away and leave
grants counted. It holds because such a rollback releases a permit, and
only a new grant, which has users, uses it up again.
-/

set_option autoImplicit false

namespace Backplane.Lock

open Relation (ReflTransGen)

namespace Item

/-- A lock that has not lost a permit. -/
structure Funded (shared : Bool) (i : Item) : Prop where
  pos : 0 < i.capacity
  enough : i.capacity ≤ i.supply + i.held
  exact_of_shared : shared = true → i.supply + i.held = i.capacity
  held_le_owners : shared = false → i.held ≤ i.owners.members.length
  owned : i.supply = 0 → i.owners.members ≠ []

variable {shared : Bool} {revocable : Item → Users → Prop} {capacity : Nat} {i j : Item}

theorem funded_fresh (shared : Bool) (hpos : 0 < capacity) : Funded shared (fresh capacity) where
  pos := hpos
  enough := Nat.le_refl _
  exact_of_shared _ := rfl
  held_le_owners _ := Nat.le_refl 0
  owned hnone := absurd hnone (Nat.ne_of_gt hpos)

/-- A grant to users has an owner. -/
theorem owners_grant_ne_nil (i : Item) {users : Users} (hfits : Fits shared users) :
    (i.grant users).owners.members ≠ [] := by
  obtain ⟨u, hu⟩ := List.exists_mem_of_ne_nil _ hfits.ne_nil
  exact List.ne_nil_of_mem ((owners_grant i users u).mpr (.inr hu))

/-- A permit that was taken out of the supply becomes a grant. -/
theorem Funded.grant (h : Funded shared i) (k : Item) (hcap : k.capacity = i.capacity)
    (hheld : k.held = i.held) (howners : k.owners = i.owners) (hsupply : k.supply + 1 = i.supply)
    {users : Users} (hfits : Fits shared users) (hnew : k.isOwnedByAny users = false) :
    Funded shared (k.grant users) := by
  have henough := h.enough
  have hgrant : (k.grant users).supply = k.supply := rfl
  have hcount : (k.grant users).held = k.held + 1 := rfl
  have hsame : (k.grant users).capacity = k.capacity := rfl
  refine ⟨hcap ▸ h.pos, by omega, fun hshared => ?_, fun hsingle => ?_,
    fun _ => owners_grant_ne_nil k hfits⟩
  · have hexact := h.exact_of_shared hshared
    omega
  · obtain ⟨u, hu⟩ := hfits.single hsingle
    have hle := h.held_le_owners hsingle
    rw [length_owners_grant hu hnew, hcount, howners, hheld]
    omega

/-- An owner's grant ends: one permit more, whatever is counted. -/
theorem Funded.unlock (h : Funded shared i) (hs : Sound capacity i) (hsingle : shared = false)
    {u : Int} (hu : u ∈ i.owners) :
    Funded shared ({ i with owners := i.owners.erase u, held := i.held - 1 }.release 1).1 := by
  have henough := h.enough
  have hle := h.held_le_owners hsingle
  have hlen := Roster.length_erase hs.owners_ascending hu
  have hsupply : ({ i with owners := i.owners.erase u, held := i.held - 1 }.release 1).1.supply
      = i.supply + 1 := supply_release _ 1
  refine ⟨h.pos, ?_, fun hshared => ?_, fun _ => ?_, fun hnone => ?_⟩
  · show i.capacity ≤ _ + (i.held - 1)
    omega
  · rw [hsingle] at hshared
    cases hshared
  · show i.held - 1 ≤ (i.owners.erase u).members.length
    omega
  · omega

/-- A rollback takes back as many grants as it gives permits back. -/
theorem Funded.revoke (h : Funded shared i) (hs : Sound capacity i) {users : Users}
    (hfits : Fits shared users) : Funded shared (i.revoke users).1 := by
  have hpos := h.pos
  have henough := h.enough
  have howners : shared = false →
      i.owners.members.length ≤ (i.owners.diff users).members.length + 1 := by
    intro hsingle
    obtain ⟨u, hu⟩ := hfits.single hsingle
    rw [members_diff_single hu]
    exact Roster.length_le_erase hs.owners_ascending u
  rw [revoke_fst]
  split
  · rename_i hheld
    have hsupply : ({ i with owners := i.owners.diff users, held := i.held - 1 }.release 1).1.supply
        = i.supply + 1 := supply_release _ 1
    refine ⟨hpos, ?_, fun hshared => ?_, fun hsingle => ?_, fun hnone => ?_⟩
    · show i.capacity ≤ _ + (i.held - 1)
      omega
    · show _ + (i.held - 1) = i.capacity
      have hexact := h.exact_of_shared hshared
      omega
    · show i.held - 1 ≤ (i.owners.diff users).members.length
      have hle := h.held_le_owners hsingle
      have hless := howners hsingle
      omega
    · omega
  · -- No grant is counted, so all permits are in the supply.
    rename_i hheld
    refine ⟨hpos, henough, h.exact_of_shared, fun _ => ?_, fun hnone => ?_⟩
    · show i.held ≤ _
      omega
    · change i.supply = 0 at hnone
      omega

/-- Every move keeps a lock funded. -/
theorem Move.funded (hm : Move shared revocable i j) (hs : Sound capacity i)
    (h : Funded shared i) : Funded shared j := by
  have hpos := h.pos
  have henough := h.enough
  cases hm with
  | pass users hfits hfree hnew =>
    refine h.grant { i with available := i.available - 1 } rfl rfl rfl ?_ hfits hnew
    show i.available - 1 + i.handed.length + 1 = i.available + i.handed.length
    omega
  | enqueue c _ _ => exact ⟨hpos, henough, h.exact_of_shared, h.held_le_owners, h.owned⟩
  | accept c users hfits hhanded hnew =>
    exact h.grant (i.unhand c) rfl rfl rfl (supply_unhand hs.queue_nodup hhanded) hfits hnew
  | handBack c hhanded =>
    have hless := supply_unhand hs.queue_nodup hhanded
    have hsupply : ((i.unhand c).release 1).1.supply = i.supply := by
      rw [supply_release, hless]
    refine ⟨hpos, ?_, fun hshared => ?_, h.held_le_owners, fun hnone => ?_⟩
    · rw [hsupply]
      exact henough
    · rw [hsupply]
      exact h.exact_of_shared hshared
    · omega
  | leave c _ => exact ⟨hpos, henough, h.exact_of_shared, h.held_le_owners, h.owned⟩
  | revoke users hfits _ => exact h.revoke hs hfits
  | unlock u hsingle howns => exact h.unlock hs hsingle howns
  | unlockShared users hshared _ =>
    have hsupply : ({ i with owners := ∅, held := 0 }.release i.held).1.supply
        = i.supply + i.held := supply_release _ _
    refine ⟨hpos, ?_, fun _ => ?_, fun _ => Nat.le_refl 0, fun hnone => ?_⟩
    · show i.capacity ≤ _ + 0
      omega
    · show _ + 0 = i.capacity
      have hexact := h.exact_of_shared hshared
      omega
    · omega
  | collect _ _ => exact funded_fresh shared hpos

/-- So does any number of moves. -/
theorem funded_of_moves (hm : ReflTransGen (Move shared revocable) i j) (hs : Sound capacity i)
    (h : Funded shared i) : Funded shared j := by
  induction hm with
  | refl => exact h
  | tail hearlier hlast ih => exact hlast.funded (sound_of_moves hearlier hs) ih

/-- A free lock counts no grant, and no call has one of its permits in
hand. -/
theorem Funded.held_of_isFree (h : Funded shared i) (hfree : i.isFree = true) :
    i.held = 0 ∧ (shared = true → i.handed = []) := by
  obtain ⟨havailable, howners⟩ := (isFree_iff i).mp hfree
  have hsupply : i.supply = i.available + i.handed.length := rfl
  cases shared with
  | true =>
    have hexact := h.exact_of_shared rfl
    refine ⟨by omega, fun _ => List.eq_nil_of_length_eq_zero (by omega)⟩
  | false =>
    have hle := h.held_le_owners rfl
    rw [howners, List.length_nil] at hle
    exact ⟨Nat.le_zero.mp hle, fun hshared => nomatch hshared⟩

end Item

namespace Moment

variable {m : Moment} {t : String} {e : Event}

/-- All locks are funded. -/
def Funded (m : Moment) : Prop :=
  ∀ t b, m.service.blocks.get? t = some b → ∀ x, (b.item x).Funded b.allowMulti

/-- Every event keeps all locks funded. -/
theorem funded_step (h : m.Sound) (hf : m.Funded) (e : Event) : (m.step e).Funded := by
  intro t b' hb' x
  rcases moved_step h (fun _ _ _ => trivial) (fun _ _ _ => trivial) hb' with
    ⟨b, hb, hmoved⟩ | ⟨_, hempty⟩
  · rw [hmoved.same.allowMulti_eq]
    exact Item.funded_of_moves (hmoved.moves x) ((h.service.block hb).item x) (hf t b hb x)
  · -- A new type has fresh locks only.
    rw [Block.item_of_items_eq_empty hempty]
    exact Item.funded_fresh _ ((sound_step h e).service.block hb').pos

/-- All locks are funded at every moment. -/
theorem funded_after (es : List Event) (n : Nat) : (after es n).Funded := by
  have hboth : (after es n).Sound ∧ (after es n).Funded :=
    after_induction (motive := fun m => m.Sound ∧ m.Funded)
      ⟨⟨Service.sound_empty, fun h => nomatch h⟩, fun _ _ hb => nomatch hb⟩
      (fun _ e h => ⟨sound_step h.1 e, funded_step h.1 h.2 e⟩) n
  exact hboth.2

end Moment

end Backplane.Lock
