import Backplane.Proofs.Lock.History

/-!
# `Backplane.Proofs.Lock.Exclusion`: when locks for single owners exclude

A lock of a type for single owners excludes if it has at most as many
owners as permits, and every permit is available, in the hand of a call,
or an owner's. A call with a deadline can break this: when it gives up, it
takes its grants back, and it does not look whether they are still its
own. If its user has unlocked a resource meanwhile and somebody else has
locked it, the call gives the permit of the new owner away.

The main statements:

* `exclusive_iff_no_stray_rollback`: this is the only way to break it. In
  every history, the locks of a type exclude at all moments if and only if
  no rollback of this kind happens.
* `not_always_exclusive`: it does happen.

The balance of permits and owners is the invariant behind both directions.
Every event but a stray rollback keeps it, and the first stray rollback
leaves a lock with one permit too many.
-/

set_option autoImplicit false

namespace Backplane.Lock

open Relation (ReflTransGen)

namespace Moment

/-- The locks of a type exclude, if it is a type for single owners. -/
def Exclusive (m : Moment) (t : String) : Prop :=
  ∀ b, m.service.blocks.get? t = some b → b.allowMulti = false →
    ∀ x i, b.items.get? x = some i →
      i.owners.members.length ≤ b.maxLocks ∧
      i.available + i.handed.length + i.owners.members.length = b.maxLocks

/-- A call takes back a grant that its user has not any more, while somebody
else has one. -/
def StrayRollback (m : Moment) (t : String) (e : Event) : Prop :=
  ∃ name x u, e = .wake name ∧ m.TakesBack name t x u ∧ ¬ m.Owns t x u ∧ ∃ v, m.Owns t x v

/-- Permits and owners of a type for single owners are in balance. -/
def Accounted (m : Moment) (t : String) : Prop :=
  ∀ b, m.service.blocks.get? t = some b → b.allowMulti = false → ∀ x, (b.item x).Balanced

variable {m : Moment} {t : String} {e : Event}

/-- A call that gives up, and whose rollback hits somebody else's permit,
makes a stray rollback. -/
theorem strayRollback_of_stray {name : CallId} {c : Call} {b : Block} {x : Int}
    (hc : m.service.calls.get? name = some c)
    (hp : (m.service.resume name m.now).1 = .done false)
    (hb : m.service.blocks.get? c.resourceType = some b) (hsingle : b.allowMulti = false)
    (hfits : Fits b.allowMulti c.users) (hx : x ∈ c.taken) (hstray : (b.item x).Stray c.users) :
    m.StrayRollback c.resourceType (.wake name) := by
  obtain ⟨u, hu⟩ := List.exists_mem_of_ne_nil _ hfits.ne_nil
  have hother : ∃ v, v ∈ (b.item x).owners := by
    refine List.exists_mem_of_ne_nil _ fun hnil => ?_
    rw [← Roster.isEmpty_iff, hstray.2] at hnil
    cases hnil
  obtain ⟨v, hv⟩ := hother
  refine ⟨name, x, u, rfl, ⟨c, hc, hp, rfl, hx, hu⟩, ?_, v, b, hb, hsingle, hv⟩
  rintro ⟨b', hb', _, hown⟩
  rw [hb] at hb'
  cases hb'
  exact Item.not_mem_owners hstray.1 hu hown

/-- Every stray rollback is of this kind. -/
theorem StrayRollback.stray (h : m.Sound) (hs : m.StrayRollback t e) :
    ∃ name c b x, e = .wake name ∧ m.service.calls.get? name = some c ∧
      (m.service.resume name m.now).1 = .done false ∧ c.resourceType = t ∧
      m.service.blocks.get? t = some b ∧ b.allowMulti = false ∧ x ∈ c.taken ∧
      (b.item x).Stray c.users := by
  obtain ⟨name, x, u, he, ⟨c, hc, hp, ht, hx, hu⟩, hnot, v, b, hb, hsingle, hv⟩ := hs
  refine ⟨name, c, b, x, he, hc, hp, ht, hb, hsingle, hx, ?_, ?_⟩
  · -- The call has this one user, so none of its users is an owner.
    obtain ⟨_, _, b', hb', hfits⟩ := h.service.call hc
    rw [ht, hb] at hb'
    cases hb'
    obtain ⟨w, hw⟩ := hfits.single hsingle
    have huw : u = w := List.mem_singleton.mp (hw ▸ hu)
    rw [Bool.eq_false_iff]
    intro htrue
    obtain ⟨u', hu', hown⟩ := (Item.isOwnedByAny_iff _ _).mp htrue
    rw [hw, List.mem_singleton, ← huw] at hu'
    exact hnot ⟨b, hb, hsingle, hu' ▸ hown⟩
  · rw [Bool.eq_false_iff]
    intro hempty
    rw [Roster.isEmpty_iff] at hempty
    change v ∈ (b.item x).owners.members at hv
    rw [hempty] at hv
    cases hv

/-- An event without a stray rollback keeps permits and owners in balance. -/
theorem accounted_step (h : m.Sound) (ha : m.Accounted t) (hno : ¬ m.StrayRollback t e) :
    (m.step e).Accounted t := by
  intro b' hb' hsingle x
  have hkept : ∀ b, m.service.blocks.get? t = some b → b.allowMulti = false := by
    intro b hb
    obtain ⟨b₂, hb₂, hmulti⟩ := kept_type h hb e
    rw [hb'] at hb₂
    cases hb₂
    rw [← hmulti, hsingle]
  -- The only rollbacks in question are those of grants noted before.
  have hnoted : ∀ {name c b y}, e = .wake name → m.RollsBack name c b y → c.resourceType = t →
      ¬ (b.item y).Stray c.users := by
    intro name c b y he hback ht hstray
    subst ht he
    obtain ⟨hc, hp, hb, hy⟩ := hback
    obtain ⟨_, _, b₁, hb₁, hfits⟩ := h.service.call hc
    rw [hb] at hb₁
    cases hb₁
    exact hno (strayRollback_of_stray hc hp hb (hkept b hb) hfits hy hstray)
  rcases moved_step h (fun _ _ => Item.not_stray_of_isOwnedByAny) hnoted hb' with
    ⟨b, hb, hmoved⟩ | ⟨_, hempty⟩
  · have hmoves := hmoved.moves x
    rw [hkept b hb] at hmoves
    exact Item.balanced_of_moves hmoves ((h.service.block hb).item x) (ha b hb (hkept b hb) x)
  · -- A new type has fresh locks only.
    rw [Block.item_of_items_eq_empty hempty]
    exact Item.balanced_fresh _

/-- Locks in balance exclude. -/
theorem Accounted.exclusive (h : m.Sound) (ha : m.Accounted t) : m.Exclusive t := by
  intro b hb hsingle x i hi
  have hsupply := (ha b hb hsingle x).supply_eq
  rw [((h.service.block hb).item x).capacity_eq, Block.item_of_get? hi] at hsupply
  change i.available + i.handed.length + i.owners.members.length = b.maxLocks at hsupply
  exact ⟨by omega, hsupply⟩

/-- A lock that is not in the table excludes, so one that does not is
there. -/
theorem Exclusive.supply_eq (h : m.Exclusive t) {b : Block}
    (hb : m.service.blocks.get? t = some b) (hsingle : b.allowMulti = false) (x : Int) :
    (b.item x).supply + (b.item x).owners.members.length = b.maxLocks := by
  cases hi : b.items.get? x with
  | none =>
    rw [Block.item_of_get?_eq_none hi]
    rfl
  | some i =>
    rw [Block.item_of_get? hi]
    exact (h b hb hsingle x i hi).2

/-- A stray rollback leaves a lock that does not exclude. -/
theorem not_exclusive_of_strayRollback (h : m.Sound) (ha : m.Accounted t)
    (hs : m.StrayRollback t e) : ¬ (m.step e).Exclusive t := by
  obtain ⟨name, c, b, x, rfl, hc, hp, ht, hb, hsingle, hx, hstray⟩ := hs.stray h
  intro hexclusive
  rcases Service.resume_cases h.service hc m.now with heq | ⟨b₁, b', hran⟩
  · rw [heq] at hp
    cases hp
  · have hfound := hran.found
    rw [ht, hb] at hfound
    cases hfound
    have hb' : (m.step (.wake name)).service.blocks.get? t = some b' := by
      show (m.service.resume name m.now).2.1.blocks.get? t = some b'
      rw [hran.get? t, if_pos ht.symm]
    have hsame := hran.moved.same
    have hsupply := hexclusive.supply_eq hb' (hsame.allowMulti_eq.trans hsingle) x
    have hextra := Item.supply_revoke_stray (ha b hb hsingle x) hstray
    rw [hran.run.item_of_giveUp hran.ready hp hx, hsame.maxLocks_eq] at hsupply
    rw [((h.service.block hb).item x).capacity_eq] at hextra
    omega

/-- Before the first stray rollback everything is in balance. -/
theorem accounted_after {es : List Event} {n : Nat}
    (hno : ∀ k e, k < n → es[k]? = some e → ¬ (after es k).StrayRollback t e) :
    (after es n).Accounted t := by
  induction n with
  | zero => exact fun b hb => nomatch hb
  | succ n ih =>
    have hbefore := ih fun k e hk => hno k e (Nat.lt_succ_of_lt hk)
    cases he : es[n]? with
    | none => rwa [after_of_end he]
    | some e =>
      rw [after_succ he]
      exact accounted_step (sound_after es n) hbefore (hno n e (Nat.lt_succ_self n) he)

/-- In every history, the locks of a type for single owners exclude at all
moments if and only if no call takes back a grant that its user has not
any more while somebody else has one. -/
theorem exclusive_iff_no_stray_rollback (t : String) (es : List Event) :
    (∀ n, (after es n).Exclusive t) ↔
      ∀ n e, es[n]? = some e → ¬ (after es n).StrayRollback t e := by
  constructor
  · intro hexclusive n
    -- The first stray rollback finds everything in balance and destroys it.
    induction n using Nat.strong_induction_on with
    | _ n ih =>
      intro e he hstray
      have haccounted : (after es n).Accounted t := accounted_after fun k e hk => ih k hk e
      refine not_exclusive_of_strayRollback (sound_after es n) haccounted hstray ?_
      rw [← after_succ he]
      exact hexclusive (n + 1)
  · intro hno n
    have haccounted : (after es n).Accounted t := accounted_after fun k e _ => hno k e
    exact haccounted.exclusive (sound_after es n)

/-- A user unlocks a resource while their call for two resources still
waits; somebody else locks it; the call gives up. -/
def overtakenHistory : List Event :=
  [.declare ⟨"bed", 1, false⟩,
   .request ⟨"bed", [2], .one 20, none⟩,
   .request ⟨"bed", [1, 2], .one 10, some 100⟩,
   .unlock "bed" 1 (.one 10),
   .request ⟨"bed", [1], .one 30, none⟩,
   .elapse 100,
   .wake 1,
   .request ⟨"bed", [1], .one 40, none⟩]

/-- In this history the only permit has two owners in the end. -/
theorem not_always_exclusive :
    ¬ ∀ (t : String) (es : List Event) (n : Nat), (after es n).Exclusive t := by
  intro h
  have hlocks : ∃ b i, (after overtakenHistory 8).service.blocks.get? "bed" = some b ∧
      b.allowMulti = false ∧ b.maxLocks = 1 ∧ b.items.get? 1 = some i ∧
      i.owners.members = [30, 40] := ⟨_, _, rfl, rfl, rfl, rfl, rfl⟩
  obtain ⟨b, i, hb, hsingle, hmax, hi, howners⟩ := hlocks
  have hle := (h "bed" overtakenHistory 8 b hb hsingle 1 i hi).1
  rw [howners, hmax] at hle
  exact absurd hle (by decide)

end Moment

end Backplane.Lock
