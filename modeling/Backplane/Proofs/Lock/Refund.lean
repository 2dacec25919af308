import Backplane.Proofs.Lock.Grants
import Mathlib.Data.List.Nodup

/-!
# `Backplane.Proofs.Lock.Refund`: what a run takes and gives back

A run of a call takes a permit out of the supply of a lock exactly where it
makes its users owners. A call that gives up puts the permits back that it
has taken, provided that each of these locks still counts a grant: otherwise
`Item.revoke` has nothing to give back. The main statements:

* `Run.reached`: after a run that is not given up, a resource of the call is
  owned by one of its users, or the call has still to lock it.
* `Run.supply`: what such a run takes out of the supply of a lock.
* `Run.supply_of_giveUp`: what a call that gives up puts back.
* `Item.covered_of_moves`: without rollbacks, a lock with an owner counts a
  grant.

The last one is not about calls, since owners and grants also go when
somebody unlocks. On a type for single owners one owner goes with one grant,
so the invariant has to count the owners; on a type with shared grants all
of them go together.
-/

set_option autoImplicit false

namespace Backplane.Lock

open Relation (ReflTransGen)

/-- The ids that a call has still to lock where it stands. -/
def Progress.ahead : Progress → List Int
  | .waiting c => c.ids
  | .done _ => []

namespace Item

/-- A rollback puts a permit back if a grant is counted. -/
theorem supply_revoke_of_held {i : Item} (hpos : 0 < i.held) (users : Users) :
    (i.revoke users).1.supply = i.supply + 1 := by
  rw [revoke_fst, if_pos hpos, supply_release]
  rfl

/-! ### Owners with a grant behind them -/

/-- The owners of a lock have grants behind them: on a type for single
owners each has one, and on a type with shared grants all of them have at
least one. -/
structure Covered (shared : Bool) (i : Item) : Prop where
  one_each : shared = false → i.owners.members.length ≤ i.held
  one_for_all : shared = true → i.owners.members ≠ [] → 0 < i.held

variable {shared : Bool} {capacity : Nat} {i j : Item}

theorem covered_fresh (shared : Bool) (capacity : Nat) : Covered shared (fresh capacity) :=
  ⟨fun _ => Nat.le_refl 0, fun _ hne => absurd rfl hne⟩

/-- So a lock with an owner counts a grant. -/
theorem Covered.held_pos (h : Covered shared i) {u : Int} (hu : u ∈ i.owners) : 0 < i.held := by
  have hpos : 0 < i.owners.members.length := List.length_pos_of_mem hu
  cases shared with
  | true => exact h.one_for_all rfl (List.ne_nil_of_length_pos hpos)
  | false => exact Nat.lt_of_lt_of_le hpos (h.one_each rfl)

theorem Covered.grant (h : Covered shared i) {users : Users} (hfits : Fits shared users)
    (hnew : i.isOwnedByAny users = false) : Covered shared (i.grant users) := by
  refine ⟨fun hsingle => ?_, fun _ _ => Nat.succ_pos i.held⟩
  obtain ⟨u, hu⟩ := hfits.single hsingle
  have hle := h.one_each hsingle
  rw [length_owners_grant hu hnew]
  exact Nat.succ_le_succ hle

/-- Every move but a rollback keeps the owners covered. -/
theorem Move.covered (hm : Move shared (fun _ _ => False) i j) (hs : Sound capacity i)
    (h : Covered shared i) : Covered shared j := by
  cases hm with
  | pass users hfits _ hnew =>
    have hless : Covered shared { i with available := i.available - 1 } :=
      ⟨h.one_each, h.one_for_all⟩
    exact hless.grant hfits hnew
  | enqueue c _ _ => exact ⟨h.one_each, h.one_for_all⟩
  | accept c users hfits _ hnew =>
    have hunhand : Covered shared (i.unhand c) := ⟨h.one_each, h.one_for_all⟩
    exact hunhand.grant hfits hnew
  | handBack c _ => exact ⟨h.one_each, h.one_for_all⟩
  | leave c _ => exact ⟨h.one_each, h.one_for_all⟩
  | revoke users _ hnever => exact hnever.elim
  | unlock u hsingle howns =>
    refine ⟨fun _ => ?_, fun hshared => ?_⟩
    · have hle := h.one_each hsingle
      have hlen := Roster.length_erase hs.owners_ascending howns
      show (i.owners.erase u).members.length ≤ i.held - 1
      omega
    · rw [hsingle] at hshared
      cases hshared
  | unlockShared users _ _ => exact ⟨fun _ => Nat.le_refl 0, fun _ hne => absurd rfl hne⟩
  | collect _ _ => exact covered_fresh shared i.capacity

/-- So does any number of moves. -/
theorem covered_of_moves (hm : ReflTransGen (Move shared fun _ _ => False) i j)
    (hs : Sound capacity i) (h : Covered shared i) : Covered shared j := by
  induction hm with
  | refl => exact h
  | tail hearlier hlast ih => exact hlast.covered (sound_of_moves hearlier hs) ih

end Item

namespace Block

variable {name : CallId} {now : Nat} {b b₀ b₁ b' : Block} {c : Call} {users : Users}
  {ids passed rest granted granted₀ : List Int} {p : Progress}

/-! ### The ids behind a call -/

theorem Starts.reached (hready : Ready name b c) (h : Starts name b c b₀ granted₀ rest) {x : Int}
    (hx : x ∈ c.ids) : x ∈ rest ∨ (b₀.item x).isOwnedByAny c.users = true := by
  cases h with
  | begins _ => exact .inl hx
  | handBack hids _ howned =>
    rw [hids] at hx
    rcases List.mem_cons.mp hx with rfl | hx
    · rw [item_setItem_self]
      exact .inr howned
    · exact .inl hx
  | accept hids _ _ =>
    rw [hids] at hx
    rcases List.mem_cons.mp hx with rfl | hx
    · obtain ⟨u, hu⟩ := List.exists_mem_of_ne_nil _ hready.fits.ne_nil
      rw [item_setItem_self]
      exact .inr ((Item.isOwnedByAny_iff _ _).mpr ⟨u, hu, (Item.owners_grant _ _ u).mpr (.inr hu)⟩)
    · exact .inl hx
  | leave hids _ => exact .inl (hids ▸ hx)

/-- Locking ids takes nobody's ownership away. -/
theorem Passes.owners_mono (h : Passes users b ids granted b') {x u : Int}
    (hu : u ∈ (b.item x).owners) : u ∈ (b'.item x).owners := by
  induction h with
  | nil _ => exact hu
  | skip _ _ ih => exact ih (by rwa [item_setItem_item])
  | @take b _ id _ _ _ _ _ ih =>
    refine ih ?_
    rw [item_setItem]
    split
    · rename_i hx
      rw [Item.owners_grant]
      exact .inl (hx ▸ hu)
    · exact hu

theorem Passes.isOwnedByAny_mono (h : Passes users b ids granted b') {x : Int} {us : Users}
    (howned : (b.item x).isOwnedByAny us = true) : (b'.item x).isOwnedByAny us = true := by
  obtain ⟨u, hu, hown⟩ := (Item.isOwnedByAny_iff _ _).mp howned
  exact (Item.isOwnedByAny_iff _ _).mpr ⟨u, hu, h.owners_mono hown⟩

theorem Passes.reached (hne : users.members ≠ []) (h : Passes users b ids granted b') {x : Int}
    (hx : x ∈ ids) : (b'.item x).isOwnedByAny users = true := by
  induction h with
  | nil _ => cases hx
  | skip howned rest ih =>
    rcases List.mem_cons.mp hx with rfl | hx
    · exact rest.isOwnedByAny_mono (by rwa [item_setItem_item])
    · exact ih hx
  | take _ _ rest ih =>
    rcases List.mem_cons.mp hx with rfl | hx
    · obtain ⟨u, hu⟩ := List.exists_mem_of_ne_nil _ hne
      refine rest.isOwnedByAny_mono ((Item.isOwnedByAny_iff _ _).mpr ⟨u, hu, ?_⟩)
      rw [item_setItem_self, Item.owners_grant]
      exact .inr hu
    · exact ih hx

/-- After a run, one of the users owns a resource of the call, or the call
has still to lock it, unless it gives up. -/
theorem Run.reached (hready : Ready name b c) (h : Run name now b c p b') (hp : p ≠ .done false)
    {x : Int} (hx : x ∈ c.ids) : x ∈ p.ahead ∨ (b'.item x).isOwnedByAny c.users = true := by
  cases h with
  | @intro b₀ b₁ _ granted₀ granted passed rest _ start pass stop =>
    have hmiddle : x ∈ rest ∨ (b₁.item x).isOwnedByAny c.users = true := by
      rcases start.reached hready hx with hleft | howned
      · rcases List.mem_append.mp hleft with hpassed | hrest
        · exact .inr (pass.reached hready.fits.ne_nil hpassed)
        · exact .inl hrest
      · exact .inr (pass.isOwnedByAny_mono howned)
    cases stop with
    | finish => exact hmiddle
    | giveUp _ _ => exact absurd rfl hp
    | wait _ =>
      refine hmiddle.imp_right fun howned => ?_
      -- A call that joins a queue takes nobody's ownership.
      rw [item_setItem]
      split
      · rename_i heq
        exact heq ▸ howned
      · exact howned

/-! ### The supply -/

theorem Starts.supply (hready : Ready name b c) (h : Starts name b c b₀ granted₀ rest) (x : Int) :
    (b₀.item x).supply + granted₀.count x = (b.item x).supply := by
  -- Where nothing is granted, the permits of a lock stay in its supply.
  have hkeep : ∀ {id : Int} {i : Item}, i.supply = (b.item id).supply →
      ((b.setItem id i).item x).supply + ([] : List Int).count x = (b.item x).supply := by
    intro id i hi
    rw [item_setItem, List.count_nil]
    split
    · rename_i hx
      rw [hx]
      exact hi
    · rfl
  cases h with
  | begins _ => rfl
  | @handBack id _ _ hhanded _ =>
    refine hkeep ?_
    rw [Item.supply_release]
    exact Item.supply_unhand (hready.sound id).queue_nodup hhanded
  | @accept id _ _ hhanded _ =>
    have hless := Item.supply_unhand (hready.sound id).queue_nodup hhanded
    rw [item_setItem]
    split
    · rename_i hx
      rw [hx, List.count_singleton_self]
      exact hless
    · rename_i hx
      rw [List.count_singleton, if_neg fun heq => hx (eq_of_beq heq).symm]
      rfl
  | leave _ _ => exact hkeep rfl

theorem Passes.supply (h : Passes users b ids granted b') (x : Int) :
    (b'.item x).supply + granted.count x = (b.item x).supply := by
  induction h with
  | nil _ => rfl
  | skip _ _ ih => rw [ih, item_setItem_item]
  | @take b _ id _ granted _ hfree _ ih =>
    rw [item_setItem] at ih
    rw [List.count_cons]
    split at ih
    · rename_i hx
      rw [hx, if_pos (beq_self_eq_true id)]
      rw [hx] at ih
      have hless : ({ b.item id with available := (b.item id).available - 1 }.grant users).supply + 1
          = (b.item id).supply := by
        show (b.item id).available - 1 + (b.item id).handed.length + 1
          = (b.item id).available + (b.item id).handed.length
        omega
      omega
    · rename_i hx
      rw [if_neg fun heq => hx (eq_of_beq heq).symm]
      exact ih

/-- The supply when a run stops: one permit less for each id that was
granted. -/
theorem supply_before_end (hready : Ready name b c)
    (start : Starts name b c b₀ granted₀ (passed ++ rest))
    (pass : Passes c.users b₀ passed granted b₁) (x : Int) :
    (b₁.item x).supply + (granted₀ ++ granted).count x = (b.item x).supply := by
  have hstart := start.supply hready x
  have hpass := pass.supply x
  rw [List.count_append]
  omega

/-- A run takes one permit for each id that it grants, and no other, unless
the call gives up. Which ids these are is told by the owners: see
`Run.owners`. -/
theorem Run.supply (hready : Ready name b c) (h : Run name now b c p b') (hp : p ≠ .done false)
    {ids : List Int} (hnew : ∀ x ∈ ids, (b.item x).isOwnedByAny c.users = false)
    (howners : ∀ x u, u ∈ (b'.item x).owners ↔ u ∈ (b.item x).owners ∨ (x ∈ ids ∧ u ∈ c.users))
    (x : Int) : (b'.item x).supply + (if x ∈ ids then 1 else 0) = (b.item x).supply := by
  cases h with
  | @intro b₀ b₁ _ granted₀ granted passed rest _ start pass stop =>
    -- The end changes neither owners nor supply.
    have hend : (b'.item x).owners = (b₁.item x).owners ∧
        (b'.item x).supply = (b₁.item x).supply := by
      cases stop with
      | finish => exact ⟨rfl, rfl⟩
      | giveUp _ _ => exact absurd rfl hp
      | wait _ =>
        rw [item_setItem]
        split
        · rename_i hx
          rw [hx]
          exact ⟨rfl, rfl⟩
        · exact ⟨rfl, rfl⟩
    obtain ⟨hfree, howners₁⟩ := owners_before_end hready start pass
    have hsupply := supply_before_end hready start pass x
    -- Take one of the users: what the run grants, they own only afterwards.
    obtain ⟨u, hu⟩ := List.exists_mem_of_ne_nil _ hready.fits.ne_nil
    have hsame := (howners x u).symm.trans (hend.1 ▸ howners₁ x u)
    have hmem : x ∈ ids ↔ x ∈ granted₀ ++ granted := by
      constructor
      · intro hx
        exact ((hsame.mp (.inr ⟨hx, hu⟩)).resolve_left (Item.not_mem_owners (hnew x hx) hu)).1
      · intro hx
        exact ((hsame.mpr (.inr ⟨hx, hu⟩)).resolve_left (Item.not_mem_owners (hfree x hx) hu)).1
    rw [hend.2]
    by_cases hx : x ∈ granted₀ ++ granted
    · have hone := List.count_eq_one_of_mem (nodup_granted hready start pass) hx
      rw [if_pos (hmem.mpr hx)]
      omega
    · have hnone := List.count_eq_zero_of_not_mem hx
      rw [if_neg fun h => hx (hmem.mp h)]
      omega

/-- A call that gives up puts one permit back for each grant that it had
noted before. The grants of this very run leave no trace. -/
theorem Run.supply_of_giveUp (hready : Ready name b c) (h : Run name now b c p b')
    (hp : p = .done false) (hheld : ∀ x ∈ c.taken, 0 < (b.item x).held) (x : Int) :
    (b'.item x).supply = (b.item x).supply + if x ∈ c.taken then 1 else 0 := by
  by_cases htaken : x ∈ c.taken
  · rw [h.item_of_giveUp hready hp htaken, if_pos htaken,
      Item.supply_revoke_of_held (hheld x htaken)]
  · rw [if_neg htaken]
    cases h with
    | @intro b₀ b₁ _ granted₀ granted passed rest _ start pass stop =>
      have hsupply := supply_before_end hready start pass x
      have hcount := held_before_end start pass x
      cases stop with
      | finish => cases hp
      | wait _ => cases hp
      | giveUp hlate hundone =>
        have hdeadline := Call.isSome_of_isLate_noteGrants hlate
        rw [hundone.item_eq x, Call.taken_noteGrants, if_pos hdeadline]
        by_cases hnew : x ∈ granted₀ ++ granted
        · -- The run counts its own grant, so there is one to give back.
          have hone := List.count_eq_one_of_mem (nodup_granted hready start pass) hnew
          rw [if_pos (List.mem_append_right _ hnew),
            Item.supply_revoke_of_held (by omega)]
          omega
        · have hnone := List.count_eq_zero_of_not_mem hnew
          rw [if_neg fun hmem => (List.mem_append.mp hmem).elim htaken hnew]
          omega

end Block

end Backplane.Lock
