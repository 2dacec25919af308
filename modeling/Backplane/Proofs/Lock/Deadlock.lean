import Backplane.Proofs.Lock.Wakeup
import Mathlib.Data.Finset.Max

/-!
# `Backplane.Proofs.Lock.Deadlock`: ascending batches do not deadlock

A call locks its ids in ascending order. If every user asks for locks of a
type for single owners only while they own none of it and have no other
call under way on it, then whatever a waiting call's user owns was granted
by this very call, and is smaller than the id that the call waits for. So
along the relation "waits for an owner who has a call under way" the ids
that are waited for ascend. The main statements:

* `ranked_after`: a user with a call under way owns only ids below those
  that the call still has to lock.
* `lt_of_waitsFor`: the ids that are waited for ascend.
* `no_circular_wait`: no call waits for itself in a circle, and if any call
  waits at a settled moment, then one waits for owners none of whom has a
  call under way.

Calls may have a time limit here. When such a call gives up it only ends
ownerships, which keeps the rank.
-/

set_option autoImplicit false

namespace Backplane.Lock

namespace Block

variable {name : CallId} {now : Nat} {b b' : Block} {c : Call} {p : Progress}

/-- A call that waits is left with ids of before, and what its run has
granted lies below them all. -/
theorem Run.lt_of_granted (hready : Ready name b c) (h : Run name now b c p b') {c' : Call}
    (hp : p = .waiting c') :
    c'.ids ⊆ c.ids ∧ ∀ x u, u ∈ (b'.item x).owners →
      u ∈ (b.item x).owners ∨ (u ∈ c.users ∧ ∀ y ∈ c'.ids, x < y) := by
  cases h with
  | @intro _ b₁ _ granted₀ granted passed rest _ start pass stop =>
    have hsub := sublist_ids start pass
    obtain ⟨_, howners⟩ := owners_before_end hready start pass
    have horder : (granted₀ ++ granted ++ rest).Pairwise (· < ·) :=
      (hready.order.sublist (List.sublist_append_right _ _)).sublist hsub
    cases stop with
    | finish => cases hp
    | giveUp _ _ => cases hp
    | @wait id ids _ =>
      cases hp
      refine ⟨fun y hy => hsub.subset (List.mem_append_right _ hy), fun x u hu => ?_⟩
      have hu₁ : u ∈ (b₁.item x).owners := by
        rw [item_setItem] at hu
        split at hu
        · rename_i hx
          rw [hx]
          exact hu
        · exact hu
      refine ((howners x u).mp hu₁).imp_right fun ⟨hx, husers⟩ => ⟨husers, fun y hy => ?_⟩
      exact (List.pairwise_append.mp horder).2.2 x hx y hy

end Block

namespace Moment

/-- A call under way on a type is one for the user `u`. -/
def InCall (m : Moment) (name : CallId) (t : String) (u : Int) : Prop :=
  ∃ c, m.service.calls.get? name = some c ∧ c.resourceType = t ∧ u ∈ c.users

/-- Whoever asks for locks of a type owns none of it and has no call under
way on it. -/
def AsksAfresh (m : Moment) (t : String) (e : Event) : Prop :=
  ∀ r u, e = .request r → r.resourceType = t → r.party = .one u →
    (∀ x, ¬ m.Owns t x u) ∧ ∀ name, ¬ m.InCall name t u

/-- Each user has at most one call under way on a type, and owns only ids
below those that the call still has to lock. -/
structure Ranked (m : Moment) (t : String) : Prop where
  one_call : ∀ {n₁ n₂ u}, m.InCall n₁ t u → m.InCall n₂ t u → n₁ = n₂
  below : ∀ {n c x u}, m.service.calls.get? n = some c → c.resourceType = t → u ∈ c.users →
    m.Owns t x u → ∀ y ∈ c.ids, x < y

variable {m : Moment} {t : String} {e : Event}

/-- It is enough to know that no call is new and no ownership. -/
theorem Ranked.of_subset {m' : Moment} (h : m.Ranked t)
    (hcalls : ∀ {n c}, m'.service.calls.get? n = some c → c.resourceType = t →
      m.service.calls.get? n = some c)
    (howns : ∀ {x u}, m'.Owns t x u → m.Owns t x u) : m'.Ranked t := by
  have hin : ∀ {n u}, m'.InCall n t u → m.InCall n t u := fun ⟨c, hc, ht, hu⟩ =>
    ⟨c, hcalls hc ht, ht, hu⟩
  exact ⟨fun h₁ h₂ => h.one_call (hin h₁) (hin h₂),
    fun hc ht hu hown => h.below (hcalls hc ht) ht hu (howns hown)⟩

/-- A user of a call that runs had no other call under way; and if the call
begins, they owned nothing. -/
theorem runner_alone (hr : m.Ranked t) (hfresh : m.AsksAfresh t e) {b : Block}
    (hb : m.service.blocks.get? t = some b) (hsingle : b.allowMulti = false) {name : CallId}
    {c : Call} {p : Progress} (hruns : Runs m name c p e) (ht : c.resourceType = t) {u : Int}
    (hu : u ∈ c.users) :
    (∀ n, m.InCall n t u → n = name) ∧
      (m.service.calls.get? name = some c ∨ ∀ x, ¬ m.Owns t x u) := by
  cases hruns with
  | begins r users hname hcall _ hresolve =>
    obtain ⟨b', hresolve⟩ := hresolve
    obtain ⟨hb', _, hone⟩ := Service.resolve_ok hresolve
    have htype : r.resourceType = t := by
      rw [hcall] at ht
      exact ht
    rw [htype, hb] at hb'
    cases hb'
    obtain ⟨v, hparty, husers⟩ := hone hsingle
    have huv : u = v := by
      rw [hcall] at hu
      change u ∈ users.members at hu
      rw [husers] at hu
      exact List.mem_singleton.mp hu
    obtain ⟨howns, hcalls⟩ := hfresh r u rfl htype (huv ▸ hparty)
    exact ⟨fun n hn => absurd hn (hcalls n), .inr howns⟩
  | resumes hcall _ =>
    exact ⟨fun n hn => hr.one_call hn ⟨c, hcall, ht, hu⟩, .inl hcall⟩

/-- A run keeps the rank. -/
theorem ranked_ran (hr : m.Ranked t) (hfresh : m.AsksAfresh t e) {b b' : Block}
    (hb : m.service.blocks.get? t = some b) (hsingle : b.allowMulti = false) {name : CallId}
    {c : Call} {p : Progress} (hruns : Runs m name c p e) (ht : c.resourceType = t)
    (hran : Service.Ran name m.now m.service b c p (m.step e).service b') :
    (m.step e).Ranked t := by
  have halone := fun {u} (hu : u ∈ c.users) => runner_alone hr hfresh hb hsingle hruns ht hu
  have hb' : (m.step e).service.blocks.get? t = some b' := by rw [hran.get? t, if_pos ht.symm]
  have hsingle' : b'.allowMulti = false := hran.moved.same.allowMulti_eq.trans hsingle
  -- A call under way afterwards is the one that ran, for the same users, or was under way.
  have hcalls : ∀ {n c₁}, (m.step e).service.calls.get? n = some c₁ →
      (n = name ∧ p = .waiting c₁ ∧ c₁.users = c.users) ∨
        (n ≠ name ∧ m.service.calls.get? n = some c₁) := by
    intro n c₁ hc₁
    rw [hran.call? n] at hc₁
    split at hc₁
    · rename_i hn
      cases p with
      | waiting c' =>
        cases hc₁
        exact .inl ⟨hn, rfl, (hran.run.call rfl).2.1⟩
      | done granted => cases hc₁
    · rename_i hn
      exact .inr ⟨hn, hc₁⟩
  -- Only the users of the call become owners.
  have howns : ∀ {x u}, (m.step e).Owns t x u → m.Owns t x u ∨ u ∈ c.users := by
    rintro x u ⟨b₁, hb₁, _, hu⟩
    rw [hb'] at hb₁
    cases hb₁
    rcases hran.run.owners hran.ready with ⟨_, _, howners, _⟩ | ⟨_, _, howners⟩
    · exact ((howners x u).mp hu).imp (fun hu => ⟨b, hb, hsingle, hu⟩) fun hu => hu.2
    · exact .inl ⟨b, hb, hsingle, ((howners x u).mp hu).1⟩
  refine ⟨?_, ?_⟩
  · rintro n₁ n₂ u ⟨c₁, hc₁, ht₁, hu₁⟩ ⟨c₂, hc₂, ht₂, hu₂⟩
    rcases hcalls hc₁ with ⟨rfl, _, husers₁⟩ | ⟨_, hc₁⟩
    · rcases hcalls hc₂ with ⟨rfl, _, _⟩ | ⟨_, hc₂⟩
      · rfl
      · exact ((halone (husers₁ ▸ hu₁)).1 n₂ ⟨c₂, hc₂, ht₂, hu₂⟩).symm
    · rcases hcalls hc₂ with ⟨rfl, _, husers₂⟩ | ⟨_, hc₂⟩
      · exact (halone (husers₂ ▸ hu₂)).1 n₁ ⟨c₁, hc₁, ht₁, hu₁⟩
      · exact hr.one_call ⟨c₁, hc₁, ht₁, hu₁⟩ ⟨c₂, hc₂, ht₂, hu₂⟩
  · intro n c₁ x u hc₁ ht₁ hu₁ hown y hy
    rcases hcalls hc₁ with ⟨rfl, hp, husers⟩ | ⟨hne, hc₁⟩
    · rw [husers] at hu₁
      obtain ⟨hsub, hgranted⟩ := hran.run.lt_of_granted hran.ready hp
      obtain ⟨b₁, hb₁, _, hu⟩ := hown
      rw [hb'] at hb₁
      cases hb₁
      rcases hgranted x u hu with hbefore | ⟨_, hlt⟩
      · -- The user owned it before, so the call did not just begin.
        have hown₀ : m.Owns t x u := ⟨b, hb, hsingle, hbefore⟩
        rcases (halone hu₁).2 with hcall | hnothing
        · exact hr.below hcall ht hu₁ hown₀ y (hsub hy)
        · exact absurd hown₀ (hnothing x)
      · exact hlt y hy
    · rcases howns hown with hown₀ | hu
      · exact hr.below hc₁ ht₁ hu₁ hown₀ y hy
      · exact absurd ((halone hu).1 n ⟨c₁, hc₁, ht₁, hu₁⟩) hne

/-- Every event keeps the rank. -/
theorem ranked_step (h : m.Sound) (hr : m.Ranked t) (hfresh : m.AsksAfresh t e)
    (hsingle : m.Single t) : (m.step e).Ranked t := by
  cases step_cases h e with
  | steady hs =>
    refine hr.of_subset (fun hc _ => hs.calls_eq ▸ hc) ?_
    rintro x u ⟨b', hb', hmulti, hu⟩
    obtain ⟨b, hb, hsteady⟩ := hs.of_get? hb'
    exact ⟨b, hb, hsingle b hb, (hsteady.item x).owners (hsingle b hb) u hu⟩
  | declared d hd =>
    refine hr.of_subset (fun hc _ => hd.calls_eq ▸ hc) ?_
    rintro x u ⟨b', hb', hmulti, hu⟩
    rw [hd.get? t] at hb'
    split at hb'
    · cases hb'
      cases hu
    · exact ⟨b', hb', hmulti, hu⟩
  | @ran name b b' c p hruns hran =>
    by_cases ht : c.resourceType = t
    · have hb : m.service.blocks.get? t = some b := ht ▸ hran.found
      exact ranked_ran hr hfresh hb (hsingle b hb) hruns ht hran
    · -- The call has another type.
      refine hr.of_subset (fun {n c₁} hc₁ ht₁ => ?_) ?_
      · rw [hran.call? n] at hc₁
        split at hc₁
        · cases p with
          | waiting c' =>
            cases hc₁
            exact absurd ((hran.run.call rfl).1.symm.trans ht₁) ht
          | done granted => cases hc₁
        · exact hc₁
      · rintro x u ⟨b₁, hb₁, hmulti, hu⟩
        rw [hran.get? t, if_neg fun heq => ht heq.symm] at hb₁
        exact ⟨b₁, hb₁, hmulti, hu⟩

/-- The rank holds at every moment of a history in which everybody asks
afresh. -/
theorem ranked_after {es : List Event} {n : Nat} (hs : (after es n).Single t)
    (hfresh : ∀ k e, k < n → es[k]? = some e → (after es k).AsksAfresh t e) :
    (after es n).Ranked t := by
  induction n with
  | zero =>
    refine ⟨?_, fun hc => nomatch hc⟩
    rintro n₁ n₂ u ⟨_, hc, _⟩
    cases hc
  | succ n ih =>
    have hbefore := ih (single_before (Nat.le_succ n) hs) fun k e hk =>
      hfresh k e (Nat.lt_succ_of_lt hk)
    cases he : es[n]? with
    | none => rwa [after_of_end he]
    | some e =>
      rw [after_succ he]
      exact ranked_step (sound_after es n) hbefore (hfresh n e (Nat.lt_succ_self n) he)
        (single_before (Nat.le_succ n) hs)

/-! ### Who waits for whom -/

/-- A call waits for an owner who has a call under way. -/
def WaitsFor (m : Moment) (t : String) (n₁ n₂ : CallId) : Prop :=
  ∃ x u, m.Awaits n₁ t x ∧ m.Owns t x u ∧ m.InCall n₂ t u

/-- A call under way waits for some id. -/
theorem InCall.awaits (h : m.Sound) {n : CallId} {u : Int} (hn : m.InCall n t u) :
    ∃ y, m.Awaits n t y := by
  obtain ⟨c, hc, ht, _⟩ := hn
  obtain ⟨y, rest, hids⟩ := List.exists_cons_of_ne_nil (h.service.call hc).ids_ne_nil
  exact ⟨y, c, hc, ht, by rw [hids, List.head?_cons]⟩

/-- The ids that are waited for ascend. -/
theorem lt_of_waitsFor (hr : m.Ranked t) {n₁ n₂ : CallId} (hw : m.WaitsFor t n₁ n₂) {x y : Int}
    (hx : m.Awaits n₁ t x) (hy : m.Awaits n₂ t y) : x < y := by
  obtain ⟨x', u, ⟨c₁, hc₁, _, hhead₁⟩, hown, c₂, hc₂, ht₂, hu⟩ := hw
  obtain ⟨c₁', hc₁', _, hhead₁'⟩ := hx
  obtain ⟨c₂', hc₂', _, hhead₂⟩ := hy
  rw [hc₁] at hc₁'
  cases hc₁'
  rw [hhead₁] at hhead₁'
  cases hhead₁'
  rw [hc₂] at hc₂'
  cases hc₂'
  exact hr.below hc₂ ht₂ hu hown y (List.mem_of_head? hhead₂)

/-- No call waits for itself in a circle. -/
theorem not_transGen_waitsFor (h : m.Sound) (hr : m.Ranked t) (n : CallId) :
    ¬ Relation.TransGen (m.WaitsFor t) n n := by
  -- Along every path the ids that are waited for ascend, and so they cannot come back.
  have hpath : ∀ n₁ n₂, Relation.TransGen (m.WaitsFor t) n₁ n₂ →
      ∃ x y, m.Awaits n₁ t x ∧ m.Awaits n₂ t y ∧ x < y := by
    intro n₁ n₂ hp
    induction hp with
    | single hw =>
      have hw' := hw
      obtain ⟨x, u, hx, _, hin⟩ := hw'
      obtain ⟨y, hy⟩ := hin.awaits h
      exact ⟨x, y, hx, hy, lt_of_waitsFor hr hw hx hy⟩
    | tail _ hw ih =>
      obtain ⟨x, y, hx, hy, hlt⟩ := ih
      have hw' := hw
      obtain ⟨_, u, _, _, hin⟩ := hw'
      obtain ⟨z, hz⟩ := hin.awaits h
      exact ⟨x, z, hx, hz, hlt.trans (lt_of_waitsFor hr hw hy hz)⟩
  intro hcircle
  obtain ⟨x, y, ⟨c, hc, _, hx⟩, ⟨c', hc', _, hy⟩, hlt⟩ := hpath n n hcircle
  rw [hc] at hc'
  cases hc'
  rw [hx] at hy
  cases hy
  exact lt_irrefl x hlt

/-- Of the calls that wait, one waits for the largest id. -/
theorem exists_awaits_max (h : m.Sound) {n : CallId} {x : Int} (hx : m.Awaits n t x) :
    ∃ n₁ y, m.Awaits n₁ t y ∧ ∀ n₂ z, m.Awaits n₂ t z → z ≤ y := by
  have hmem : ∀ {n : CallId} {x : Int}, m.Awaits n t x →
      ∃ e ∈ (m.service.calls.entries.filter fun e => e.2.resourceType = t).toFinset,
        e.2.ids.head?.getD 0 = x := by
    rintro n x ⟨c, hc, ht, hhead⟩
    refine ⟨(n, c), ?_, by rw [hhead, Option.getD_some]⟩
    rw [List.mem_toFinset, List.mem_filter]
    exact ⟨Table.mem_entries_of_get? hc, decide_eq_true ht⟩
  obtain ⟨e₀, he₀, _⟩ := hmem hx
  obtain ⟨⟨n₁, c₁⟩, he₁, hmax⟩ := Finset.exists_max_image _
    (fun e : CallId × Call => e.2.ids.head?.getD 0) ⟨e₀, he₀⟩
  rw [List.mem_toFinset, List.mem_filter, decide_eq_true_eq] at he₁
  have hc₁ := Table.get?_of_mem_entries h.service.calls_ascending he₁.1
  obtain ⟨y, rest, hids⟩ := List.exists_cons_of_ne_nil (h.service.call hc₁).ids_ne_nil
  have hhead₁ : c₁.ids.head? = some y := by rw [hids, List.head?_cons]
  refine ⟨n₁, y, ⟨c₁, hc₁, he₁.2, hhead₁⟩, fun n₂ z hz => ?_⟩
  obtain ⟨e₂, he₂, hz₂⟩ := hmem hz
  have hle := hmax e₂ he₂
  rw [hz₂] at hle
  change z ≤ c₁.ids.head?.getD 0 at hle
  rwa [hhead₁, Option.getD_some] at hle

/-- Take a type for single owners, and a history in which everybody who
asks for its locks owns none of them and has no other call under way on
it. Then no call waits for itself in a circle. If a call waits at a settled
moment, then some call waits for a resource that has owners, none of whom
has a call under way. -/
theorem no_circular_wait (t : String) (es : List Event) (n : Nat)
    (hfresh : ∀ k e, k < n → es[k]? = some e → (after es k).AsksAfresh t e) {b : Block}
    (hb : (after es n).service.blocks.get? t = some b) (hsingle : b.allowMulti = false) :
    (∀ name, ¬ Relation.TransGen ((after es n).WaitsFor t) name name) ∧
    ((after es n).Settled → (∃ name x, (after es n).Awaits name t x) →
      ∃ name x, (after es n).Awaits name t x ∧ (∃ u, (after es n).Owns t x u) ∧
        ∀ u, (after es n).Owns t x u → ∀ name', ¬ (after es n).InCall name' t u) := by
  have hsound := sound_after es n
  have htype : (after es n).Single t := by
    intro b' hb'
    rw [hb] at hb'
    cases hb'
    exact hsingle
  have hranked := ranked_after htype hfresh
  refine ⟨not_transGen_waitsFor hsound hranked, ?_⟩
  rintro hsettled ⟨name, x, hx⟩
  obtain ⟨name₁, y, hy, hmax⟩ := exists_awaits_max hsound hx
  obtain ⟨i, hi, _, _, u, hu, _⟩ := attended hsound (funded_after es n) hsettled hb hy
  refine ⟨name₁, y, hy, ⟨u, b, hb, hsingle, by rwa [Block.item_of_get? hi]⟩, ?_⟩
  intro v hown name₂ hin
  -- An owner with a call under way would have it wait for an even larger id.
  obtain ⟨z, hz⟩ := hin.awaits hsound
  have hlt : y < z := lt_of_waitsFor hranked ⟨y, v, hy, hown, hin⟩ hy hz
  exact absurd (hmax name₂ z hz) (not_le_of_gt hlt)

/-- It is enough to look at the locks and the calls that are there. -/
theorem asksAfresh_of_entries {r : Request} {u : Int} (hparty : r.party = .one u)
    (hlocks : ∀ e ∈ m.service.blocks.entries, ∀ f ∈ e.2.items.entries, u ∉ f.2.owners.members)
    (hcalls : ∀ e ∈ m.service.calls.entries, u ∉ e.2.users.members) :
    m.AsksAfresh t (.request r) := by
  intro r' u' hr' _ hparty'
  cases hr'
  rw [hparty] at hparty'
  cases hparty'
  refine ⟨?_, ?_⟩
  · rintro x ⟨b, hb, _, hu⟩
    cases hi : b.items.get? x with
    | none =>
      rw [Block.item_of_get?_eq_none hi] at hu
      cases hu
    | some i =>
      rw [Block.item_of_get? hi] at hu
      exact hlocks _ (Table.mem_entries_of_get? hb) _ (Table.mem_entries_of_get? hi) hu
  · rintro name ⟨c, hc, _, hu⟩
    exact hcalls _ (Table.mem_entries_of_get? hc) hu

/-- Three batches that overlap, in any order of their ids: the second waits
for the first, and the third for the second. -/
def chainedHistory : List Event :=
  [.declare ⟨"bed", 1, false⟩,
   .request ⟨"bed", [3, 2], .one 10, none⟩,
   .request ⟨"bed", [2, 1, 2], .one 20, none⟩,
   .request ⟨"bed", [4, 1], .one 30, none⟩]

/-- The wait at the end of this history is not circular. -/
theorem no_circular_wait_chained :
    ∃ b, (after chainedHistory 4).service.blocks.get? "bed" = some b ∧ b.allowMulti = false ∧
      (after chainedHistory 4).Settled ∧ (after chainedHistory 4).Awaits 2 "bed" 1 ∧
      ∃ name x, (after chainedHistory 4).Awaits name "bed" x ∧
        (∃ u, (after chainedHistory 4).Owns "bed" x u) ∧
        ∀ u, (after chainedHistory 4).Owns "bed" x u →
          ∀ name', ¬ (after chainedHistory 4).InCall name' "bed" u := by
  have hfresh : ∀ k e, k < 4 → chainedHistory[k]? = some e →
      (after chainedHistory k).AsksAfresh "bed" e := by
    intro k e hk he
    have hcases : k = 0 ∨ k = 1 ∨ k = 2 ∨ k = 3 := by omega
    rcases hcases with rfl | rfl | rfl | rfl
    · cases he
      exact fun r u hr => nomatch hr
    · cases he
      exact asksAfresh_of_entries rfl (by decide) (by decide)
    · cases he
      exact asksAfresh_of_entries rfl (by decide) (by decide)
    · cases he
      exact asksAfresh_of_entries rfl (by decide) (by decide)
  have hfound : ∃ b, (after chainedHistory 4).service.blocks.get? "bed" = some b ∧
      b.allowMulti = false := ⟨_, rfl, rfl⟩
  obtain ⟨b, hb, hsingle⟩ := hfound
  have hsettled : (after chainedHistory 4).Settled := settled_of_entries (by decide)
  have hwaits : (after chainedHistory 4).Awaits 2 "bed" 1 := ⟨_, rfl, rfl, rfl⟩
  exact ⟨b, hb, hsingle, hsettled, hwaits,
    (no_circular_wait "bed" chainedHistory 4 hfresh hb hsingle).2 hsettled ⟨2, 1, hwaits⟩⟩

end Moment

end Backplane.Lock
