import Backplane.Proofs.Lock.Supply

/-!
# `Backplane.Proofs.Lock.Wakeup`: no call waits in vain

A released permit goes into the hand of the call that has waited longest,
and the operation that released it names this call as woken. A moment is
settled if every call that was woken so has run since, and no call has a
permit in hand. The main statements:

* `hasPermit_step`: who has a permit in hand after an event had it before
  and was not let run by the event, or is named by it as woken.
* `attended`: at a settled moment, a lock that some call waits for has no
  permit left, and has an owner whose unlock wakes the first call in the
  queue.
* `no_lost_wakeup`: both together, with the count of permits, for all
  moments of all histories.

Rollbacks may leave fewer owners than grants, or more. What carries the
proof is that all locks are funded (`Backplane.Proofs.Lock.Supply`).
-/

set_option autoImplicit false

namespace Backplane.Lock

/-! ### Who gets a permit is woken -/

namespace Item

/-- A release hands permits to the calls that it names. -/
theorem handed_release (i : Item) (n : Nat) :
    (i.release n).1.handed = i.handed ++ (i.release n).2 := rfl

/-- So does a rollback. -/
theorem handed_revoke (i : Item) (users : Users) :
    (i.revoke users).1.handed = i.handed ++ (i.revoke users).2 := by
  show (if 0 < i.held then _ else _ : Item × List CallId).1.handed
    = i.handed ++ (if 0 < i.held then _ else _ : Item × List CallId).2
  split
  · rfl
  · exact (List.append_nil _).symm

/-- So does an unlock. -/
theorem handed_unlock {shared : Bool} {users : Users} {i j : Item} {woken : List CallId}
    (h : (if shared then i.releaseShared? users else i.releaseFirst? users) = some (j, woken)) :
    j.handed = i.handed ++ woken := by
  cases shared with
  | true =>
    rw [if_pos rfl] at h
    unfold releaseShared? at h
    split at h
    · cases h
      rfl
    · cases h
  | false =>
    rw [if_neg (by decide)] at h
    obtain ⟨u, _, hrelease⟩ := List.exists_of_findSome?_eq_some h
    unfold releaseOwner? at hrelease
    split at hrelease
    · cases hrelease
      rfl
    · cases hrelease

end Item

namespace Block

/-- Whoever has a permit in hand in `b'` had it in `b`, or has been woken. -/
def Wakes (b b' : Block) (woken : List CallId) : Prop :=
  ∀ x d, d ∈ (b'.item x).handed → d ∈ (b.item x).handed ∨ d ∈ woken

variable {b b₁ b' : Block} {woken more : List CallId}

theorem Wakes.refl (b : Block) (woken : List CallId) : b.Wakes b woken := fun _ _ hd => .inl hd

theorem Wakes.trans (h : b.Wakes b₁ woken) (h' : b₁.Wakes b' more) :
    b.Wakes b' (woken ++ more) := by
  intro x d hd
  rcases h' x d hd with hd | hd
  · exact (h x d hd).imp_right (List.mem_append_left _)
  · exact .inr (List.mem_append_right _ hd)

/-- One lock is written to. -/
theorem wakes_setItem {id : Int} {i : Item} (h : i.handed = (b.item id).handed ++ woken) :
    b.Wakes (b.setItem id i) woken := by
  intro x d hd
  rw [item_setItem] at hd
  split at hd
  · rename_i hx
    rw [h, List.mem_append] at hd
    rwa [hx]
  · exact .inl hd

/-- No call is handed anything. -/
theorem wakes_setItem_same {id : Int} {i : Item} (h : i.handed = (b.item id).handed) :
    b.Wakes (b.setItem id i) [] :=
  wakes_setItem (by rw [h, List.append_nil])

theorem wakes_rollBack (b : Block) (c : Call) : b.Wakes (b.rollBack c).1 (b.rollBack c).2 := by
  -- The induction is on the noted ids, with what has been rolled back so far.
  suffices h : ∀ (ids : List Int) (s : Block × List CallId), b.Wakes s.1 s.2 →
      b.Wakes (ids.foldl (undoStep c.users) s).1 (ids.foldl (undoStep c.users) s).2 by
    rw [rollBack_eq]
    exact h c.taken (b, []) (Wakes.refl b [])
  intro ids
  induction ids with
  | nil => exact fun _ hs => hs
  | cons id rest ih =>
    intro s hs
    exact ih _ (hs.trans (wakes_setItem (Item.handed_revoke _ _)))

theorem wakes_proceed (b : Block) (name : CallId) (c : Call) (now : Nat) (ids : List Int) :
    b.Wakes (b.proceed name c now ids).2.1 (b.proceed name c now ids).2.2 := by
  induction ids generalizing b c with
  | nil => exact Wakes.refl b []
  | cons id rest ih =>
    have htouch : b.Wakes (b.setItem id (b.item id)) [] := wakes_setItem_same rfl
    simp only [proceed]
    split
    · exact htouch.trans (ih _ c)
    · split
      · -- A permit is taken that was available, and nobody is woken.
        rename_i i htake
        have hsame : (i.grant c.users).handed = (b.item id).handed := by
          unfold Item.takePermit? at htake
          split at htake
          · cases htake
            rfl
          · cases htake
        exact (wakes_setItem_same hsame).trans (ih _ _)
      · split
        · exact htouch.trans (wakes_rollBack _ c)
        · exact wakes_setItem_same rfl

/-- A call that is let run has no permit in hand afterwards, unless it is
woken anew. -/
theorem hasPermit_resume {name : CallId} {c : Call} {now : Nat} (hready : b.Ready name c)
    (hids : c.ids ≠ []) {x : Int} {d : CallId}
    (hd : d ∈ ((b.resume name c now).2.1.item x).handed) :
    (d ∈ (b.item x).handed ∧ d ≠ name) ∨ d ∈ (b.resume name c now).2.2 := by
  obtain ⟨id, rest, hids⟩ := List.exists_cons_of_ne_nil hids
  -- The call can have a permit in hand at the id that it waits for, and nowhere else.
  have haway : ∀ y, name ∈ (b.item y).handed → y = id := by
    intro y hy
    have hplace := hready.place y (List.mem_append_right _ hy)
    rw [hids, List.head?_cons, Option.some.injEq] at hplace
    exact hplace.symm
  -- Once it has given its permit up, it is in nobody's hand.
  have hunhand : ∀ {i : Item} {more : List CallId},
      i.handed = ((b.item id).unhand name).handed ++ more →
      ∀ y e, e ∈ ((b.setItem id i).item y).handed →
        (e ∈ (b.item y).handed ∧ e ≠ name) ∨ e ∈ more := by
    intro i more hi y e he
    rw [item_setItem] at he
    split at he
    · rename_i hy
      rw [hi, List.mem_append] at he
      refine he.imp_left fun he => ?_
      change e ∈ (b.item id).handed.filter (· ≠ name) at he
      rw [List.mem_filter, decide_eq_true_eq] at he
      rwa [hy]
    · rename_i hy
      exact .inl ⟨he, fun heq => hy (haway y (heq ▸ he))⟩
  simp only [resume, hids] at hd ⊢
  split at hd
  · rename_i hhanded
    rw [if_pos hhanded]
    simp only [takeHanded] at hd ⊢
    split at hd
    · rename_i howned
      rw [if_pos howned]
      rcases wakes_proceed _ name c now rest x d hd with hd | hd
      · exact (hunhand (Item.handed_release _ 1) x d hd).imp_right (List.mem_append_left _)
      · exact .inr (List.mem_append_right _ hd)
    · rename_i hnew
      rw [if_neg hnew]
      rcases wakes_proceed _ name _ now rest x d hd with hd | hd
      · have hgrant : (((b.item id).unhand name).grant c.users).handed
            = ((b.item id).unhand name).handed ++ [] := (List.append_nil _).symm
        exact (hunhand hgrant x d hd).imp_right fun hd => absurd hd List.not_mem_nil
      · exact .inr hd
  · rename_i hwaits
    rw [if_neg hwaits]
    have hfar : ∀ y, d ∈ (b.item y).handed → d ≠ name := by
      intro y hy heq
      rw [heq] at hy
      exact hwaits (haway y hy ▸ hy)
    split at hd
    · rename_i hlate
      rw [if_pos hlate]
      have hleave : b.Wakes (b.setItem id ((b.item id).leave name)) [] := wakes_setItem_same rfl
      rcases wakes_rollBack _ c x d hd with hd | hd
      · rcases hleave x d hd with hd | hd
        · exact .inl ⟨hd, hfar x hd⟩
        · cases hd
      · exact .inr hd
    · exact .inl ⟨hd, hfar x hd⟩

end Block

namespace Service

/-- A call has a permit in hand: it was handed one and has not run since. -/
def HasPermit (s : Service) (d : CallId) : Prop :=
  ∃ t b x, s.blocks.get? t = some b ∧ d ∈ (b.item x).handed

/-- Whoever has a permit in hand in `s'` had one in `s`, or has been
woken. -/
def Wakes (s s' : Service) (woken : List CallId) : Prop :=
  ∀ d, s'.HasPermit d → s.HasPermit d ∨ d ∈ woken

variable {s s' : Service} {woken more : List CallId}

theorem Wakes.refl (s : Service) (woken : List CallId) : s.Wakes s woken := fun _ hd => .inl hd

theorem Wakes.trans {s₁ : Service} (h : s.Wakes s₁ woken) (h' : s₁.Wakes s' more) :
    s.Wakes s' (woken ++ more) := by
  intro d hd
  rcases h' d hd with hd | hd
  · exact (h d hd).imp_right (List.mem_append_left _)
  · exact .inr (List.mem_append_right _ hd)

/-- The locks of one type are written to. -/
theorem hasPermit_insert {t : String} {b' : Block} {calls : Table CallId Call} {d : CallId}
    (hd : HasPermit { blocks := s.blocks.insert t b', calls } d) :
    s.HasPermit d ∨ ∃ x, d ∈ (b'.item x).handed := by
  obtain ⟨t', b₁, x, hb₁, hx⟩ := hd
  rw [Table.get?_insert] at hb₁
  split at hb₁
  · cases hb₁
    exact .inr ⟨x, hx⟩
  · exact .inl ⟨t', b₁, x, hb₁, hx⟩

theorem wakes_unlock (s : Service) (t : String) (id : Int) (p : Party) :
    s.Wakes (s.unlock t id p).2.1 (s.unlock t id p).2.2 := by
  rcases unlock_cases s t id p with ⟨e, he⟩ | ⟨b, users, i, j, woken, hresolve, hget, hrelease, hok⟩
  · rw [he]
    exact Wakes.refl s []
  · rw [hok]
    intro d hd
    have hhanded := Item.handed_unlock hrelease
    rw [← Block.item_of_get? hget] at hhanded
    rcases hasPermit_insert hd with hd | ⟨x, hx⟩
    · exact .inl hd
    · refine (Block.wakes_setItem hhanded x d hx).imp_left fun hx => ?_
      exact ⟨t, b, x, (resolve_ok hresolve).1, hx⟩

theorem wakes_unlockAll (s : Service) (t : String) (ids : List Int) (p : Party) :
    s.Wakes (s.unlockAll t ids p).2.1 (s.unlockAll t ids p).2.2 := by
  rw [unlockAll_eq]
  split
  · exact Wakes.refl s []
  · -- The induction is on the ids, with what has been unlocked so far.
    suffices h : ∀ (acc : Except Error Unit × Service × List CallId), s.Wakes acc.2.1 acc.2.2 →
        s.Wakes (ids.foldl (unlockStep t p) acc).2.1 (ids.foldl (unlockStep t p) acc).2.2 from
      h (.ok (), s, []) (Wakes.refl s [])
    induction ids with
    | nil => exact fun _ hacc => hacc
    | cons id rest ih => exact fun acc hacc => ih _ (hacc.trans (wakes_unlock acc.2.1 t id p))

/-- The run of a call is stored. -/
theorem hasPermit_record {name : CallId} {step : Progress × Block × List CallId} {d : CallId}
    (hd : (s.record name step).2.1.HasPermit d) :
    s.HasPermit d ∨ ∃ x, d ∈ (step.2.1.item x).handed :=
  hasPermit_insert hd

theorem wakes_begin (s : Service) (name : CallId) (r : Request) (now : Nat) :
    s.Wakes (s.begin name r now).2.1 (s.begin name r now).2.2 := by
  unfold begin
  split
  · exact Wakes.refl s []
  · rename_i b users hresolve
    intro d hd
    rcases hasPermit_record hd with hd | ⟨x, hx⟩
    · exact .inl hd
    · refine (Block.wakes_proceed b name _ now _ x d hx).imp_left fun hx => ?_
      exact ⟨r.resourceType, b, x, (resolve_ok hresolve).1, hx⟩

theorem hasPermit_declared {decl : TypeDecl} (h : Declared decl s s') {d : CallId}
    (hd : s'.HasPermit d) : s.HasPermit d := by
  obtain ⟨t, b, x, hb, hx⟩ := hd
  rw [h.get? t] at hb
  split at hb
  · -- Nobody has asked for a new lock yet.
    cases hb
    cases hx
  · exact ⟨t, b, x, hb, hx⟩

theorem hasPermit_collectGarbage (h : s.Sound) {d : CallId}
    (hd : s.collectGarbage.2.HasPermit d) : s.HasPermit d := by
  obtain ⟨t, b', x, hb', hx⟩ := hd
  rw [blocks_get?_collectGarbage, Option.map_eq_some_iff] at hb'
  obtain ⟨b, hb, rfl⟩ := hb'
  rcases item_survivors h hb x with heq | ⟨heq, _, _⟩
  · exact ⟨t, b, x, hb, heq ▸ hx⟩
  · rw [heq] at hx
    cases hx

/-- A call that is let run has no permit in hand afterwards, unless it is
woken anew. -/
theorem hasPermit_resume (h : s.Sound) (name : CallId) (now : Nat) {d : CallId}
    (hd : (s.resume name now).2.1.HasPermit d) :
    (s.HasPermit d ∧ d ≠ name) ∨ d ∈ (s.resume name now).2.2 := by
  -- Whoever has a permit in hand is a call under way, and waits for this very lock.
  have hcall : ∀ {n : CallId} {t : String} {b : Block} {x : Int}, s.blocks.get? t = some b →
      n ∈ (b.item x).handed → ∃ c, s.calls.get? n = some c ∧ c.resourceType = t := by
    intro n t b x hb hx
    obtain ⟨c, hc, htype, _⟩ := (h.place hb x n).mp (List.mem_append_right _ hx)
    exact ⟨c, hc, htype⟩
  cases hc : s.calls.get? name with
  | none =>
    rw [resume_of_get?_eq_none hc] at hd
    obtain ⟨t, b, x, hb, hx⟩ := hd
    refine .inl ⟨⟨t, b, x, hb, hx⟩, fun heq => ?_⟩
    obtain ⟨c, hc', _⟩ := hcall hb (heq ▸ hx)
    rw [hc] at hc'
    cases hc'
  | some c =>
    obtain ⟨hids, horder, b, hb, hfits⟩ := h.call hc
    have hready : b.Ready name c := by
      refine h.ready hb hfits horder fun c' hc' => ?_
      rw [hc] at hc'
      exact (Option.some.inj hc').symm
    have heq : s.resume name now = s.record name (b.resume name c now) := by
      unfold resume
      simp only [hc, hb]
    have hblock : (b.resume name c now).2.1.name = c.resourceType := by
      rcases Block.resume_run b name c now hids hready.nodup with hsame | hrun
      · rw [hsame]
        exact h.name_eq hb
      · exact hrun.sameType.name_eq.trans (h.name_eq hb)
    rw [heq] at hd ⊢
    obtain ⟨t, b₁, x, hb₁, hx⟩ := hd
    change (s.blocks.insert (b.resume name c now).2.1.name (b.resume name c now).2.1).get? t
      = some b₁ at hb₁
    rw [Table.get?_insert] at hb₁
    split at hb₁
    · cases hb₁
      refine (Block.hasPermit_resume hready hids hx).imp_left fun hx => ?_
      exact ⟨⟨_, b, x, hb, hx.1⟩, hx.2⟩
    · -- The call has another type, so it had no permit there.
      rename_i ht
      refine .inl ⟨⟨t, b₁, x, hb₁, hx⟩, fun hname => ht ?_⟩
      obtain ⟨c', hc', htype⟩ := hcall hb₁ (hname ▸ hx)
      rw [hc] at hc'
      cases hc'
      rw [← htype, hblock]

end Service

namespace Moment

/-- The calls that an event hands a permit, and so makes ready to run. -/
def woken (m : Moment) : Event → List CallId
  | .request r => (m.service.begin m.nextCall r m.now).2.2
  | .wake name => (m.service.resume name m.now).2.2
  | .unlock t id p => (m.service.unlock t id p).2.2
  | .unlockAll t ids p => (m.service.unlockAll t ids p).2.2
  | .declare _ => []
  | .collect => []
  | .elapse _ => []

variable {m : Moment} {e : Event} {d : CallId}

/-- Whoever has a permit in hand after an event had one before and was not
let run, or is woken by the event. -/
theorem hasPermit_step (h : m.Sound) (hd : (m.step e).service.HasPermit d) :
    (m.service.HasPermit d ∧ e ≠ .wake d) ∨ d ∈ m.woken e := by
  cases e with
  | declare decl =>
    refine .inl ⟨?_, fun heq => nomatch heq⟩
    change ((m.service.createResource decl).toOption.getD m.service).HasPermit d at hd
    cases hdecl : m.service.createResource decl with
    | error e => rwa [hdecl] at hd
    | ok s' =>
      rw [hdecl] at hd
      rcases Service.createResource_cases hdecl with rfl | hdeclared
      · exact hd
      · exact Service.hasPermit_declared hdeclared hd
  | request r =>
    exact (Service.wakes_begin _ _ r _ d hd).imp_left fun hd => ⟨hd, fun heq => nomatch heq⟩
  | wake name =>
    refine (Service.hasPermit_resume h.service name m.now hd).imp_left fun hd => ⟨hd.1, ?_⟩
    intro heq
    cases heq
    exact hd.2 rfl
  | unlock t id p =>
    exact (Service.wakes_unlock _ t id p d hd).imp_left fun hd => ⟨hd, fun heq => nomatch heq⟩
  | unlockAll t ids p =>
    exact (Service.wakes_unlockAll _ t ids p d hd).imp_left fun hd => ⟨hd, fun heq => nomatch heq⟩
  | collect =>
    exact .inl ⟨Service.hasPermit_collectGarbage h.service hd, fun heq => nomatch heq⟩
  | elapse ms => exact .inl ⟨hd, fun heq => nomatch heq⟩

/-- A call that waits for the lock of a resource, or has been handed a
permit of it and has not run since. -/
def Awaits (m : Moment) (name : CallId) (t : String) (x : Int) : Prop :=
  ∃ c, m.service.calls.get? name = some c ∧ c.resourceType = t ∧ c.ids.head? = some x

/-- Every call that was handed a permit has run since. -/
def Settled (m : Moment) : Prop := ∀ d, ¬ m.service.HasPermit d

/-- It is enough to look at the locks that are there. -/
theorem settled_of_entries
    (h : ∀ e ∈ m.service.blocks.entries, ∀ f ∈ e.2.items.entries, f.2.handed = []) :
    m.Settled := by
  rintro d ⟨t, b, x, hb, hd⟩
  cases hi : b.items.get? x with
  | none =>
    rw [Block.item_of_get?_eq_none hi] at hd
    cases hd
  | some i =>
    rw [Block.item_of_get? hi, h _ (Table.mem_entries_of_get? hb) _ (Table.mem_entries_of_get? hi)]
      at hd
    cases hd

/-- One of the first `n` events of a history has woken a call, and none
after it has let the call run. -/
def WokenBy (es : List Event) (n : Nat) (d : CallId) : Prop :=
  ∃ i e, i < n ∧ es[i]? = some e ∧ d ∈ (after es i).woken e ∧
    ∀ j, i < j → j < n → es[j]? ≠ some (.wake d)

/-- No wake-up is lost: a call with a permit in hand has been woken. -/
theorem wokenBy_of_hasPermit {es : List Event} {n : Nat} (hd : (after es n).service.HasPermit d) :
    WokenBy es n d := by
  induction n with
  | zero =>
    obtain ⟨t, b, x, hb, _⟩ := hd
    cases hb
  | succ n ih =>
    -- Either the last event has woken the call, or an earlier one and the last did not let it run.
    cases he : es[n]? with
    | none =>
      rw [after_of_end he] at hd
      obtain ⟨i, e, hi, hei, hwoken, hsince⟩ := ih hd
      refine ⟨i, e, Nat.lt_succ_of_lt hi, hei, hwoken, fun j hij hj => ?_⟩
      rcases Nat.lt_succ_iff_lt_or_eq.mp hj with hj | rfl
      · exact hsince j hij hj
      · rw [he]
        exact fun hnone => nomatch hnone
    | some e =>
      rw [after_succ he] at hd
      rcases hasPermit_step (sound_after es n) hd with ⟨hbefore, hother⟩ | hwoken
      · obtain ⟨i, e', hi, hei, hwoken, hsince⟩ := ih hbefore
        refine ⟨i, e', Nat.lt_succ_of_lt hi, hei, hwoken, fun j hij hj => ?_⟩
        rcases Nat.lt_succ_iff_lt_or_eq.mp hj with hj | rfl
        · exact hsince j hij hj
        · rw [he]
          exact fun hsome => hother (Option.some.inj hsome)
      · exact ⟨n, e, Nat.lt_succ_self n, he, hwoken, fun j hnj hj => by omega⟩

/-! ### Whoever waits is waited for -/

/-- At a settled moment, a lock that some call waits for has no permit
left. It has an owner whose unlock would wake the first call of the
queue. -/
theorem attended (h : m.Sound) (hf : m.Funded) (hsettled : m.Settled) {t : String} {b : Block}
    (hb : m.service.blocks.get? t = some b) {name : CallId} {x : Int}
    (hwaits : m.Awaits name t x) :
    ∃ i, b.items.get? x = some i ∧ name ∈ i.waiters ∧ i.available = 0 ∧
      ∃ u ∈ i.owners.members, (m.service.unlock t x (.one u)).1 = .ok () ∧
        (m.service.unlock t x (.one u)).2.2.head? = i.waiters.head? := by
  have hqueue : name ∈ (b.item x).queue := (h.service.place hb x name).mpr hwaits
  have hhanded : (b.item x).handed = [] :=
    List.eq_nil_iff_forall_not_mem.mpr fun d hd => hsettled d ⟨t, b, x, hb, hd⟩
  have hsound := (h.service.block hb).item x
  have hfunded := hf t b hb x
  cases hi : b.items.get? x with
  | none =>
    -- A lock that is not there has no queue.
    rw [Block.item_of_get?_eq_none hi] at hqueue
    cases hqueue
  | some i =>
    rw [Block.item_of_get? hi] at hqueue hhanded hsound hfunded
    have hwaiters : name ∈ i.waiters := by
      unfold Item.queue at hqueue
      rwa [hhanded, List.append_nil] at hqueue
    have hnone : i.available = 0 := hsound.busy (List.ne_nil_of_mem hwaiters)
    have hsupply : i.supply = 0 := by
      show i.available + i.handed.length = 0
      rw [hnone, hhanded]
      rfl
    have hheld : 0 < i.held := by
      have hpos := hfunded.pos
      have henough := hfunded.enough
      omega
    obtain ⟨u, hu⟩ := List.exists_mem_of_ne_nil _ (hfunded.owned hsupply)
    obtain ⟨hok, hwoken⟩ := Service.unlock_of_owner (s := m.service) hb hi hu
    refine ⟨i, rfl, hwaiters, hnone, u, hu, hok, ?_⟩
    -- At least one permit is released, so the call in front of the queue gets one.
    rw [hwoken, List.head?_take, if_neg]
    split
    · exact Nat.ne_of_gt hheld
    · exact Nat.one_ne_zero

/-- At every moment of every history, no permit of a lock is lost, and each
call that has a permit in hand has been woken and has not run since. At a
settled moment, every lock that is waited for has no permit left, and an
owner whose unlock wakes the first call of the queue. -/
theorem no_lost_wakeup (es : List Event) (n : Nat) (t : String) (b : Block)
    (hb : (after es n).service.blocks.get? t = some b) :
    (∀ x i, b.items.get? x = some i → b.maxLocks ≤ i.available + i.held + i.handed.length ∧
      ∀ d ∈ i.handed, WokenBy es n d) ∧
    ((after es n).Settled → ∀ x name, (after es n).Awaits name t x →
      ∃ i, b.items.get? x = some i ∧ name ∈ i.waiters ∧ i.available = 0 ∧
        ∃ u ∈ i.owners.members, ((after es n).service.unlock t x (.one u)).1 = .ok () ∧
          ((after es n).service.unlock t x (.one u)).2.2.head? = i.waiters.head?) := by
  have hsound := sound_after es n
  have hfunded := funded_after es n
  refine ⟨fun x i hi => ⟨?_, fun d hd => ?_⟩, fun hsettled x name hwaits => ?_⟩
  · have henough := (hfunded t b hb x).enough
    rw [((hsound.service.block hb).item x).capacity_eq, Block.item_of_get? hi] at henough
    change b.maxLocks ≤ i.available + i.handed.length + i.held at henough
    omega
  · exact wokenBy_of_hasPermit ⟨t, b, x, hb, by rwa [Block.item_of_get? hi]⟩
  · exact attended hsound hfunded hsettled hb hwaits

/-- Two users hold grants of their own on a resource when a late rollback
takes both ownerships away and gives one permit back; somebody takes this
permit, and the next call waits. -/
def orphanedHistory : List Event :=
  [.declare ⟨"ward", 2, true⟩,
   .request ⟨"ward", [2], .one 8, none⟩,
   .request ⟨"ward", [2], .one 9, none⟩,
   .request ⟨"ward", [1, 2], .many [10, 20], some 100⟩,
   .unlock "ward" 1 (.one 10),
   .request ⟨"ward", [1], .one 10, none⟩,
   .request ⟨"ward", [1], .one 20, none⟩,
   .elapse 100,
   .wake 2,
   .request ⟨"ward", [1], .one 30, none⟩,
   .request ⟨"ward", [1], .one 40, none⟩]

/-- The call that waits in the end is attended. -/
theorem no_lost_wakeup_orphaned :
    ∃ b i, (after orphanedHistory 11).service.blocks.get? "ward" = some b ∧
      (after orphanedHistory 11).Settled ∧ (after orphanedHistory 11).Awaits 6 "ward" 1 ∧
      b.items.get? 1 = some i ∧ 6 ∈ i.waiters ∧ i.available = 0 ∧
      ∃ u ∈ i.owners.members,
        ((after orphanedHistory 11).service.unlock "ward" 1 (.one u)).1 = .ok () ∧
        ((after orphanedHistory 11).service.unlock "ward" 1 (.one u)).2.2.head?
          = i.waiters.head? := by
  have hfound : ∃ b, (after orphanedHistory 11).service.blocks.get? "ward" = some b := ⟨_, rfl⟩
  obtain ⟨b, hb⟩ := hfound
  have hsettled : (after orphanedHistory 11).Settled := settled_of_entries (by decide)
  have hwaits : (after orphanedHistory 11).Awaits 6 "ward" 1 := ⟨_, rfl, rfl, rfl⟩
  obtain ⟨i, hattended⟩ := (no_lost_wakeup orphanedHistory 11 "ward" b hb).2 hsettled 1 6 hwaits
  exact ⟨b, i, hb, hsettled, hwaits, hattended⟩

end Moment

end Backplane.Lock
