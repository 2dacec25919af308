import Backplane.Proofs.Lock.Supply
import Backplane.Proofs.Lock.Exclusion

/-!
# `Backplane.Proofs.Lock.Grants`: calls that take nothing back

A call can only have to take grants back if it has a deadline and more
than one id: with one id, the call is over as soon as it is granted. A
request of this kind is a timed batch. Without timed batches no grant is
ever undone, and what a lock counts as held is exact. The main statements:

* `plain_after`: in a history without timed batches, every call under way
  is `Call.Plain`, and has noted no grant.
* `Run.grants`: a plain call counts one grant on each id whose owner it
  makes its users, and touches no other count and no other owner.
* `exact_after`: every permit of a lock is available, in the hand of a
  call, or counted as held.
* `safe_step`: no lock ever has more permits available than a semaphore can
  count, not even within an event.
-/

set_option autoImplicit false

namespace Backplane.Lock

open Relation (ReflTransGen)

/-- A request with a time limit for more than one id. -/
def Request.IsTimedBatch (r : Request) : Prop :=
  r.timeout.isSome = true ∧ 1 < (Roster.ofList r.ids).members.length

instance (r : Request) : Decidable r.IsTimedBatch := inferInstanceAs (Decidable (_ ∧ _))

/-- An event that begins a timed batch. -/
def Event.IsTimedBatch : Event → Prop
  | .request r => r.IsTimedBatch
  | _ => False

instance : (e : Event) → Decidable e.IsTimedBatch
  | .request r => inferInstanceAs (Decidable r.IsTimedBatch)
  | .declare _ => .isFalse id
  | .wake _ => .isFalse id
  | .unlock _ _ _ => .isFalse id
  | .unlockAll _ _ _ => .isFalse id
  | .collect => .isFalse id
  | .elapse _ => .isFalse id

/-- A call that has noted no grant and will never have to take one back. -/
structure Call.Plain (c : Call) : Prop where
  taken_eq : c.taken = []
  ids_le : c.deadline.isSome = true → c.ids.length ≤ 1

/-- The call of a request that is no timed batch. -/
theorem Service.plain_callOf {r : Request} (h : ¬ r.IsTimedBatch) (users : Users) (now : Nat) :
    (callOf r users now).Plain := by
  refine ⟨rfl, fun hdeadline => Nat.not_lt.mp fun hlong => h ⟨?_, hlong⟩⟩
  change (r.timeout.map (now + ·)).isSome = true at hdeadline
  rwa [Option.isSome_map] at hdeadline

/-! ### Runs -/

namespace Block

variable {name : CallId} {now : Nat} {b b₀ b₁ b' : Block} {c : Call} {users : Users}
  {ids passed rest granted granted₀ : List Int} {p : Progress}

/-- The start of a run counts a grant where it makes owners. -/
theorem Starts.held (h : Starts name b c b₀ granted₀ rest) (x : Int) :
    (b₀.item x).held = (b.item x).held + granted₀.count x := by
  -- A call that only leaves the queue of a lock counts nothing.
  have hkeep : ∀ {id : Int} {i : Item}, i.held = (b.item id).held →
      ((b.setItem id i).item x).held = (b.item x).held + ([] : List Int).count x := by
    intro id i hi
    rw [item_setItem]
    split
    · rename_i hx
      rw [hi, hx]
      rfl
    · rfl
  cases h with
  | begins _ => rfl
  | handBack _ _ _ => exact hkeep rfl
  | @accept id _ _ _ _ =>
    rw [item_setItem]
    split
    · rename_i hx
      rw [hx, List.count_singleton_self]
      rfl
    · rename_i hx
      rw [List.count_singleton, if_neg fun heq => hx (eq_of_beq heq).symm]
      rfl
  | leave _ _ => exact hkeep rfl

/-- So do the ids that it passes. -/
theorem Passes.held (h : Passes users b ids granted b') (x : Int) :
    (b'.item x).held = (b.item x).held + granted.count x := by
  induction h with
  | nil _ => rfl
  | skip _ _ ih => rw [ih, item_setItem_item]
  | @take b _ id _ _ _ _ _ ih =>
    rw [ih, item_setItem, List.count_cons]
    split
    · rename_i hx
      rw [hx, if_pos (beq_self_eq_true id)]
      show (b.item id).held + 1 + _ = _
      omega
    · rename_i hx
      rw [if_neg fun heq => hx (eq_of_beq heq).symm]
      rfl

/-- The counts when a run stops: one grant more for each id that was
granted. -/
theorem held_before_end (start : Starts name b c b₀ granted₀ (passed ++ rest))
    (pass : Passes c.users b₀ passed granted b₁) (x : Int) :
    (b₁.item x).held = (b.item x).held + (granted₀ ++ granted).count x := by
  rw [pass.held x, start.held x, List.count_append, Nat.add_assoc]

/-- No id is granted twice in a run. -/
theorem nodup_granted (hready : Ready name b c)
    (start : Starts name b c b₀ granted₀ (passed ++ rest))
    (pass : Passes c.users b₀ passed granted b₁) : (granted₀ ++ granted).Nodup := by
  have hids : c.ids.Nodup := hready.nodup.sublist (List.sublist_append_right _ _)
  exact hids.sublist ((List.sublist_append_left _ _).trans (sublist_ids start pass))

/-- A plain call that gives up has been granted nothing. -/
theorem granted_eq_nil (hplain : c.Plain) {id : Int}
    (start : Starts name b c b₀ granted₀ (passed ++ id :: rest))
    (pass : Passes c.users b₀ passed granted b₁) (hlate : c.deadline.isSome = true) :
    granted₀ ++ granted = [] := by
  have hlen := (sublist_ids start pass).length_le
  have hone := hplain.ids_le hlate
  rw [List.length_append, List.length_cons] at hlen
  exact List.eq_nil_of_length_eq_zero (by omega)

/-- What the run of a plain call grants: each lock of a granted id had none
of the users as an owner, and has all of them afterwards, for one grant
more; all other owners and counts stay. -/
theorem Run.grants (hready : Ready name b c) (hplain : c.Plain) (h : Run name now b c p b') :
    ∃ granted : List Int, granted.Nodup ∧
      (∀ x ∈ granted, (b.item x).isOwnedByAny c.users = false) ∧
      ∀ x, (∀ u, u ∈ (b'.item x).owners ↔ u ∈ (b.item x).owners ∨ (x ∈ granted ∧ u ∈ c.users)) ∧
        (b'.item x).held = (b.item x).held + granted.count x := by
  cases h with
  | @intro b₀ b₁ _ granted₀ granted passed rest _ start pass stop =>
    obtain ⟨hfree, howners⟩ := owners_before_end hready start pass
    have hheld := held_before_end start pass
    refine ⟨granted₀ ++ granted, nodup_granted hready start pass, hfree, fun x => ?_⟩
    cases stop with
    | finish => exact ⟨howners x, hheld x⟩
    | wait _ =>
      rw [item_setItem]
      split
      · rename_i hx
        rw [← hx]
        exact ⟨howners x, hheld x⟩
      · exact ⟨howners x, hheld x⟩
    | giveUp hlate hundone =>
      -- It has nothing to take back.
      have hdeadline := Call.isSome_of_isLate_noteGrants hlate
      have hnone := granted_eq_nil hplain start pass hdeadline
      have hsame : b'.item x = b₁.item x := by
        rw [hundone.item_eq x, Call.taken_noteGrants, if_pos hdeadline, hplain.taken_eq, hnone,
          List.nil_append, if_neg List.not_mem_nil]
      rw [hsame]
      exact ⟨howners x, hheld x⟩

/-- A plain call changes each lock without any rollback. -/
theorem Run.moves_plain {revocable : Item → Users → Prop} (hready : Ready name b c)
    (hplain : c.Plain) (h : Run name now b c p b') (x : Int) :
    ReflTransGen (Item.Move b.allowMulti revocable) (b.item x) (b'.item x) := by
  cases h with
  | @intro b₀ b₁ _ granted₀ granted passed rest _ start pass stop =>
    refine moves_of_parts hready start pass stop x fun hp hx => ?_
    cases stop with
    | finish => cases hp
    | wait _ => cases hp
    | giveUp hlate _ =>
      have hdeadline := Call.isSome_of_isLate_noteGrants hlate
      rw [Call.taken_noteGrants, if_pos hdeadline, hplain.taken_eq,
        granted_eq_nil hplain start pass hdeadline] at hx
      cases hx

/-- A plain call that waits again is still plain. -/
theorem Run.plain (hplain : c.Plain) (h : Run name now b c p b') {c' : Call}
    (hp : p = .waiting c') : c'.Plain := by
  obtain ⟨_, _, hdeadline, hids, hsub, _, hkeep⟩ := h.call hp
  rw [hplain.taken_eq, List.nil_append] at hsub
  have hlen := hsub.length_le
  rw [List.length_append] at hlen
  refine ⟨?_, fun hsome => ?_⟩
  · cases hd : c.deadline with
    | none => rw [hkeep hd, hplain.taken_eq]
    | some limit =>
      -- There is only one id, and the call still waits for it.
      have hone := hplain.ids_le (by rw [hd]; rfl)
      have hpos := List.length_pos_iff.mpr hids
      exact List.eq_nil_of_length_eq_zero (by omega)
  · have hone := hplain.ids_le (hdeadline ▸ hsome)
    omega

end Block

/-! ### Histories -/

namespace Moment

variable {m : Moment} {t : String} {e : Event} {es : List Event} {n : Nat}

/-- No call under way has anything to take back. -/
def Plain (m : Moment) : Prop := ∀ name c, m.service.calls.get? name = some c → c.Plain

/-- A call that an event lets run is plain. -/
theorem Runs.plain (hm : m.Plain) (hbatch : ¬ e.IsTimedBatch) {name : CallId} {c : Call}
    {p : Progress} (h : Runs m name c p e) : c.Plain := by
  cases h with
  | begins r users _ hcall _ _ =>
    rw [hcall]
    exact Service.plain_callOf hbatch users m.now
  | resumes hcall _ => exact hm name c hcall

/-- Every event but a timed batch keeps the calls plain. -/
theorem plain_step (h : m.Sound) (hm : m.Plain) (hbatch : ¬ e.IsTimedBatch) :
    (m.step e).Plain := by
  intro name c' hc'
  cases step_cases h e with
  | steady hs =>
    rw [hs.calls_eq] at hc'
    exact hm name c' hc'
  | declared d hd =>
    rw [hd.calls_eq] at hc'
    exact hm name c' hc'
  | @ran n b b' c p hruns hran =>
    rw [hran.call? name] at hc'
    split at hc'
    · cases p with
      | waiting c'' =>
        cases hc'
        exact hran.run.plain (hruns.plain hm hbatch) rfl
      | done granted => cases hc'
    · exact hm name c' hc'

/-- In a history without timed batches, no call has anything to take
back. -/
theorem plain_after (hes : ∀ e ∈ es, ¬ e.IsTimedBatch) (n : Nat) : (after es n).Plain := by
  induction n with
  | zero => exact fun _ _ hc => nomatch hc
  | succ n ih =>
    cases he : es[n]? with
    | none => rwa [after_of_end he]
    | some e =>
      rw [after_succ he]
      exact plain_step (sound_after es n) ih (hes e (List.mem_of_getElem? he))

/-- So no rollback of it is stray. -/
theorem not_strayRollback (hm : m.Plain) : ¬ m.StrayRollback t e := by
  rintro ⟨name, x, u, _, ⟨c, hc, _, _, hx, _⟩, _⟩
  rw [(hm name c hc).taken_eq] at hx
  cases hx

end Moment

/-! ### Permits -/

namespace Item

/-- Every permit is available, in the hand of a call, or counted as held;
and on a lock for single owners, what is held are the owners. -/
structure Exact (shared : Bool) (i : Item) : Prop where
  funded : i.Funded shared
  balanced : shared = false → i.Balanced

variable {shared : Bool} {capacity : Nat} {i j : Item}

theorem Exact.permits_eq (h : Exact shared i) :
    i.available + i.held + i.handed.length = i.capacity := by
  have hsupply : i.supply + i.held = i.capacity := by
    cases shared with
    | true => exact h.funded.exact_of_shared rfl
    | false => rw [(h.balanced rfl).held_eq, (h.balanced rfl).supply_eq]
  change i.available + i.handed.length + i.held = i.capacity at hsupply
  omega

/-- Moves without stray rollbacks keep the count exact. -/
theorem Exact.move (hm : Move shared (fun i users => ¬ i.Stray users) i j)
    (hs : Sound capacity i) (h : Exact shared i) : Exact shared j := by
  refine ⟨hm.funded hs h.funded, fun hsingle => ?_⟩
  subst hsingle
  exact hm.balanced hs (h.balanced rfl)

/-- A move after which a semaphore can still count the permits that are
available. A semaphore to which permits are added checks just this. -/
def SafeMove (shared : Bool) (i j : Item) : Prop :=
  Move shared (fun i users => ¬ i.Stray users) i j ∧ j.available ≤ maxPermits

/-- Where the count is exact, all moves are safe. -/
theorem Exact.safeMoves (hcap : capacity ≤ maxPermits)
    (hm : ReflTransGen (Move shared fun i users => ¬ i.Stray users) i j)
    (hs : Sound capacity i) (h : Exact shared i) :
    Exact shared j ∧ ReflTransGen (SafeMove shared) i j := by
  induction hm with
  | refl => exact ⟨h, .refl⟩
  | @tail k j hearlier hlast ih =>
    obtain ⟨hk, hmoves⟩ := ih
    have hsound := sound_of_moves hearlier hs
    have hj := Exact.move hlast hsound hk
    have hpermits := hj.permits_eq
    rw [(hlast.sound hsound).capacity_eq] at hpermits
    exact ⟨hj, hmoves.tail ⟨hlast, by omega⟩⟩

end Item

namespace Moment

variable {m : Moment} {t : String} {e : Event} {es : List Event}

/-- Every lock counts its permits exactly. -/
def Exact (m : Moment) : Prop :=
  ∀ t b, m.service.blocks.get? t = some b → ∀ x, (b.item x).Exact b.allowMulti

/-- In a history without timed batches, all locks count exactly. -/
theorem exact_after (hes : ∀ e ∈ es, ¬ e.IsTimedBatch) (n : Nat) : (after es n).Exact := by
  intro t b hb x
  refine ⟨funded_after es n t b hb x, fun hsingle => ?_⟩
  have haccounted : (after es n).Accounted t :=
    accounted_after fun k e _ _ => not_strayRollback (plain_after hes k)
  exact haccounted b hb hsingle x

/-- An event of such a history changes each lock by safe moves. -/
theorem safe_step (h : m.Sound) (hm : m.Plain) (hexact : m.Exact) {b b' : Block}
    (hb : m.service.blocks.get? t = some b) (hb' : (m.step e).service.blocks.get? t = some b')
    (x : Int) : ReflTransGen (Item.SafeMove b.allowMulti) (b.item x) (b'.item x) := by
  -- No call has noted a grant, so none can be taken back.
  have hnoted : ∀ {name c b y}, e = .wake name → m.RollsBack name c b y → c.resourceType = t →
      ¬ (b.item y).Stray c.users := by
    intro name c b y _ hback _
    have hy := hback.noted
    rw [(hm name c hback.call).taken_eq] at hy
    cases hy
  have hmoved := moved_step h (fun _ _ => Item.not_stray_of_isOwnedByAny) hnoted hb'
  rcases hmoved with ⟨b₁, hb₁, hmoved⟩ | ⟨hnone, _⟩
  · rw [hb] at hb₁
    cases hb₁
    have hblock := h.service.block hb
    exact (Item.Exact.safeMoves hblock.le_maxPermits (hmoved.moves x) (hblock.item x)
      (hexact t b hb x)).2
  · rw [hb] at hnone
    cases hnone

end Moment

end Backplane.Lock
