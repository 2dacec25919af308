import Backplane.Proofs.Lock.Paired
import Backplane.Proofs.Lock.Script
import Backplane.Proofs.Lock.Single

/-!
# `Backplane.Proofs.Lock.Separation`: resources do not interfere

Calls for one resource each, unlocks of one, declarations, collections and
the clock: of a script of these, somebody who watches one resource sees
nothing but the cues that concern it. The cues that do not concern it can be
cut out, and nothing changes for the watcher. The main statements:

* `AgreesOn.begin`, `AgreesOn.resume`, `AgreesOn.unlock`: what concerns a
  resource does the same to it in two services that agree on it.
* `AgreesOn.begin_left`, `AgreesOn.resume_left`, `AgreesOn.unlock_left`:
  what does not concern it may be done to one of the two alone.
* `separated_tracks`: so the cues of a script can be cut, one by one.
* `resources_do_not_interfere`: the same for whole scripts, with the time of
  each answer, the looks at the resource, and the scheduler.

Declarations, collections and the clock concern every resource. A
collection drops the lock of a resource only if no call needs it, and the
calls that need it are among those that were made for it; this is why the
calls of a script must be for one resource each.
-/

set_option autoImplicit false

namespace Backplane.Lock

/-! ### What concerns a resource -/

/-- An event that is about one resource, or about all of them. -/
def Event.IsSingle : Event → Prop
  | .request r => ∃ x, r.ids = [x]
  | .unlockAll _ _ _ => False
  | _ => True

/-- Whether a cue is a request for the resource `x`. -/
def Cue.asksFor (t : String) (x : Int) (c : Cue) : Bool := match c.event with
  | .request r => decide (r.resourceType = t ∧ r.ids = [x])
  | _ => false

/-- The calls of a script that are made for the resource `x`. -/
def askers (t : String) (x : Int) (cs : List Cue) : List CallId :=
  (cs.filter (Cue.asksFor t x)).map Cue.name

/-- Whether a cue concerns the resource `x`, where `mine` are the calls that
are made for it. -/
def Cue.concerns (t : String) (x : Int) (mine : List CallId) (c : Cue) : Bool := match c.event with
  | .request r => decide (r.resourceType = t ∧ r.ids = [x])
  | .wake name => decide (name ∈ mine)
  | .unlock t' y _ => decide (t' = t ∧ y = x)
  | .unlockAll _ _ _ => false
  | .declare _ => true
  | .collect => true
  | .elapse _ => true

/-! ### Services that agree on a resource -/

namespace Block

/-- Two types with the same declaration, which have the same lock of `x` if
they are the type `t`. -/
structure AgreesOn (t : String) (x : Int) (t₁ : String) (b b' : Block) : Prop where
  same : b.SameDecl b'
  get?_eq : t₁ = t → b.items.get? x = b'.items.get? x

variable {t t₁ : String} {x y : Int} {b b' : Block}

theorem AgreesOn.item_eq (h : b.AgreesOn t x t b') : b.item x = b'.item x := by
  unfold Block.item
  rw [h.get?_eq rfl, h.same.maxLocks_eq]

/-- The lock of `x` is written to on both sides. -/
theorem AgreesOn.setItem (h : b.AgreesOn t x t b') (j : Item) :
    (b.setItem x j).AgreesOn t x t (b'.setItem x j) := by
  refine ⟨⟨h.same.name_eq, h.same.maxLocks_eq, h.same.allowMulti_eq⟩, fun _ => ?_⟩
  show (b.items.insert x j).get? x = (b'.items.insert x j).get? x
  rw [Table.get?_insert, Table.get?_insert, if_pos rfl, if_pos rfl]

/-- Another lock is written to on the left. -/
theorem AgreesOn.setItem_left (h : b.AgreesOn t x t₁ b') (hoff : ¬ (t₁ = t ∧ y = x)) (j : Item) :
    (b.setItem y j).AgreesOn t x t₁ b' := by
  refine ⟨⟨h.same.name_eq, h.same.maxLocks_eq, h.same.allowMulti_eq⟩, fun ht => ?_⟩
  show (b.items.insert y j).get? x = _
  rw [Table.get?_insert, if_neg fun hx => hoff ⟨ht, hx.symm⟩]
  exact h.get?_eq ht

end Block

namespace Service

/-- Two services with the same types, the same lock of the resource `x`, and
the same of the calls `mine`. -/
structure AgreesOn (t : String) (x : Int) (mine : List CallId) (s s' : Service) : Prop where
  blocks : Paired (Block.AgreesOn t x) s s'
  calls : ∀ n ∈ mine, s.calls.get? n = s'.calls.get? n

/-- Every call under way is for one resource, and those for the resource
`x` are the calls `mine`. -/
def Narrow (t : String) (x : Int) (mine : List CallId) (s : Service) : Prop :=
  ∀ n c, s.calls.get? n = some c →
    ∃ y, c.IsFor y ∧ (n ∈ mine ↔ c.resourceType = t ∧ y = x)

variable {t t₁ : String} {x y : Int} {mine : List CallId} {s s' : Service} {b b' : Block}
  {name : CallId} {r : Request} {p : Party}

/-- What a call does to the lock of `x` is stored on both sides. -/
theorem AgreesOn.record (h : s.AgreesOn t x mine s') (hname : b.name = t)
    (hb : b.AgreesOn t x t b') (n : CallId) (p : Progress) (j : Item) (woken : List CallId) :
    Agree (AgreesOn t x mine) (s.record n (p, b.setItem x j, woken))
      (s'.record n (p, b'.setItem x j, woken)) := by
  have hname' : b'.name = t := hb.same.name_eq.symm.trans hname
  refine ⟨rfl, ⟨?_, fun m hm => ?_⟩, rfl⟩
  · show Paired _ { blocks := s.blocks.insert b.name _, calls := _ }
      { blocks := s'.blocks.insert b'.name _, calls := _ }
    rw [hname, hname']
    exact h.blocks.insert (hb.setItem j) _ _
  · have hcalls := h.calls m hm
    cases p with
    | waiting c =>
      show (s.calls.insert n c).get? m = (s'.calls.insert n c).get? m
      rw [Table.get?_insert, Table.get?_insert, hcalls]
    | done granted =>
      show (s.calls.erase n).get? m = (s'.calls.erase n).get? m
      rw [Table.get?_erase, Table.get?_erase, hcalls]

/-- What another call does to another lock is stored on the left. -/
theorem AgreesOn.record_left (h : s.AgreesOn t x mine s') (hb : s.blocks.get? t₁ = some b)
    (hname : b.name = t₁) (hoff : ¬ (t₁ = t ∧ y = x)) {n : CallId} (hn : n ∉ mine)
    (p : Progress) (j : Item) (woken : List CallId) :
    (s.record n (p, b.setItem y j, woken)).2.1.AgreesOn t x mine s' := by
  obtain ⟨b', hb', hrel⟩ := h.blocks.of_get? hb
  refine ⟨?_, fun m hm => ?_⟩
  · show Paired _ { blocks := s.blocks.insert b.name _, calls := _ } s'
    rw [hname]
    exact h.blocks.insert_left hb' (hrel.setItem_left hoff j) _
  · have hne : m ≠ n := fun heq => hn (heq ▸ hm)
    rw [← h.calls m hm]
    cases p with
    | waiting c =>
      show (s.calls.insert n c).get? m = _
      rw [Table.get?_insert, if_neg hne]
    | done granted =>
      show (s.calls.erase n).get? m = _
      rw [Table.get?_erase, if_neg hne]

/-! ### Calls that begin -/

theorem AgreesOn.begin (h : s.AgreesOn t x mine s') (hs : s.Sound) (hr : r.resourceType = t)
    (hids : r.ids = [x]) (n : CallId) (now : Nat) :
    Agree (AgreesOn t x mine) (s.begin n r now) (s'.begin n r now) := by
  subst hr
  unfold Service.begin
  rcases h.blocks.resolve_cases Block.AgreesOn.same r.resourceType r.party with
    ⟨e, he, he'⟩ | ⟨b, b', users, hb, hb', hrel⟩
  · rw [he, he']
    exact ⟨rfl, h, rfl⟩
  · have hfor := isFor_callOf hids users now
    have hname := hs.name_eq (resolve_ok hb).1
    simp only [hb, hb', hfor.ids_eq, Block.proceed_single _ _ _ _ hfor.taken_eq,
      ← hrel.item_eq]
    have hrecord := h.record hname hrel n ((b.item x).ask n (callOf r users now) now x).1
      ((b.item x).ask n (callOf r users now) now x).2 []
    exact ⟨congrArg Except.ok hrecord.result, hrecord.state, hrecord.woken⟩

theorem AgreesOn.begin_left (h : s.AgreesOn t x mine s') (hs : s.Sound) (hids : r.ids = [y])
    (hoff : ¬ (r.resourceType = t ∧ y = x)) {n : CallId} (hn : n ∉ mine) (now : Nat) :
    (s.begin n r now).2.1.AgreesOn t x mine s' := by
  unfold Service.begin
  cases hresolve : s.resolve r.resourceType r.party with
  | error e => exact h
  | ok found =>
    obtain ⟨b, users⟩ := found
    have hfor := isFor_callOf hids users now
    have hb := (resolve_ok hresolve).1
    simp only [hfor.ids_eq, Block.proceed_single _ _ _ _ hfor.taken_eq]
    exact h.record_left hb (hs.name_eq hb) hoff hn _ _ _

/-! ### Calls that are woken -/

theorem AgreesOn.resume (h : s.AgreesOn t x mine s') (hs : s.Sound) (hs' : s'.Sound)
    (hnarrow : s.Narrow t x mine) (hn : name ∈ mine) (now : Nat) :
    Agree (AgreesOn t x mine) (s.resume name now) (s'.resume name now) := by
  have hcalls := h.calls name hn
  cases hc : s.calls.get? name with
  | none =>
    rw [resume_of_get?_eq_none hc, resume_of_get?_eq_none (hcalls.symm.trans hc)]
    exact ⟨rfl, h, rfl⟩
  | some c =>
    obtain ⟨y, hfor, hmine⟩ := hnarrow name c hc
    obtain ⟨rfl, rfl⟩ := hmine.mp hn
    obtain ⟨b, i, hb, hi, heq⟩ := resume_eq_of_isFor hs hc hfor now
    obtain ⟨b', i', hb', hi', heq'⟩ := resume_eq_of_isFor hs' (hcalls.symm.trans hc) hfor now
    obtain ⟨b₁, hb₁, hrel⟩ := h.blocks.of_get? hb
    rw [hb'] at hb₁
    cases hb₁
    -- Both sides look at the same lock.
    have hitem : some i = some i' := by rw [← hi, ← hi', hrel.get?_eq rfl]
    cases hitem
    rw [heq, heq']
    exact h.record (hs.name_eq hb) hrel name _ _ _

theorem AgreesOn.resume_left (h : s.AgreesOn t x mine s') (hs : s.Sound)
    (hnarrow : s.Narrow t x mine) (hn : name ∉ mine) (now : Nat) :
    (s.resume name now).2.1.AgreesOn t x mine s' := by
  cases hc : s.calls.get? name with
  | none =>
    rw [resume_of_get?_eq_none hc]
    exact h
  | some c =>
    obtain ⟨y, hfor, hmine⟩ := hnarrow name c hc
    obtain ⟨b, i, hb, hi, heq⟩ := resume_eq_of_isFor hs hc hfor now
    rw [heq]
    exact h.record_left hb (hs.name_eq hb) (fun hon => hn (hmine.mpr hon)) hn _ _ _

/-! ### Unlocks -/

theorem AgreesOn.unlock (h : s.AgreesOn t x mine s') (hs : s.Sound) (p : Party) :
    Agree (AgreesOn t x mine) (s.unlock t x p) (s'.unlock t x p) := by
  unfold Service.unlock
  rcases h.blocks.resolve_cases Block.AgreesOn.same t p with
    ⟨e, he, he'⟩ | ⟨b, b', users, hb, hb', hrel⟩
  · rw [he, he']
    exact ⟨rfl, h, rfl⟩
  · have hname := hs.name_eq (resolve_ok hb).1
    simp only [hb, hb', unlockItem_eq, ← hrel.same.allowMulti_eq, ← hrel.item_eq,
      ← hrel.same.name_eq]
    cases if b.allowMulti then (b.item x).releaseShared? users
        else (b.item x).releaseFirst? users with
    | none =>
      dsimp only
      cases (b.item x).owners.isEmpty with
      | true => exact ⟨rfl, h, rfl⟩
      | false => exact ⟨rfl, h, rfl⟩
    | some released =>
      obtain ⟨j, woken⟩ := released
      refine ⟨rfl, ⟨?_, h.calls⟩, rfl⟩
      show Paired _ { s with blocks := s.blocks.insert b.name (b.setItem x j) }
        { s' with blocks := s'.blocks.insert b'.name (b'.setItem x j) }
      rw [← hrel.same.name_eq, hname]
      exact h.blocks.insert (hrel.setItem j) _ _

theorem AgreesOn.unlock_left (h : s.AgreesOn t x mine s') (hs : s.Sound)
    (hoff : ¬ (t₁ = t ∧ y = x)) (p : Party) : (s.unlock t₁ y p).2.1.AgreesOn t x mine s' := by
  rcases unlock_cases s t₁ y p with ⟨e, he⟩ | ⟨b, users, i, j, woken, hresolve, _, _, hok⟩
  · rw [he]
    exact h
  · have hb := (resolve_ok hresolve).1
    obtain ⟨b', hb', hrel⟩ := h.blocks.of_get? hb
    rw [hok]
    refine ⟨?_, h.calls⟩
    show Paired _ { s with blocks := s.blocks.insert b.name (b.setItem y j) } s'
    rw [hs.name_eq hb]
    exact h.blocks.insert_left hb' (hrel.setItem_left hoff j) _

/-! ### Declarations and collections -/

theorem AgreesOn.createResource (h : s.AgreesOn t x mine s') (d : TypeDecl) :
    (s.createResource d).map (fun _ => ()) = (s'.createResource d).map (fun _ => ()) ∧
      AgreesOn t x mine ((s.createResource d).toOption.getD s)
        ((s'.createResource d).toOption.getD s') := by
  rcases h.blocks.createResource_cases Block.AgreesOn.same d with
    ⟨e, he, he'⟩ | ⟨hok, hok'⟩ | ⟨b, _, hok, hok'⟩
  · rw [he, he']
    exact ⟨rfl, h⟩
  · rw [hok, hok']
    exact ⟨rfl, h⟩
  · rw [hok, hok']
    exact ⟨rfl, h.blocks.insert ⟨.refl b, fun _ => rfl⟩ _ _, h.calls⟩

/-- A lock is needed by the calls that are made for it, and by no other. -/
theorem AgreesOn.isNeeded_eq (h : s.AgreesOn t x mine s') (hs : s.Sound) (hs' : s'.Sound)
    (hnarrow : s.Narrow t x mine) (hnarrow' : s'.Narrow t x mine) :
    s.isNeeded t x = s'.isNeeded t x := by
  have huses : ∀ {s : Service}, s.Narrow t x mine → ∀ {n}, s.Uses n t x → n ∈ mine := by
    rintro s hnarrow n ⟨c, hc, htype, huse⟩
    obtain ⟨y, hfor, hmine⟩ := hnarrow n c hc
    rw [hfor.ids_eq, hfor.taken_eq] at huse
    rcases huse with hhead | hnil
    · exact hmine.mpr ⟨htype, Option.some.inj hhead⟩
    · cases hnil
  rw [Bool.eq_iff_iff, isNeeded_iff hs, isNeeded_iff hs']
  constructor
  · rintro ⟨n, huse⟩
    have hn := huses hnarrow huse
    obtain ⟨c, hc, hrest⟩ := huse
    exact ⟨n, c, (h.calls n hn).symm.trans hc, hrest⟩
  · rintro ⟨n, huse⟩
    have hn := huses hnarrow' huse
    obtain ⟨c, hc, hrest⟩ := huse
    exact ⟨n, c, (h.calls n hn).trans hc, hrest⟩

theorem AgreesOn.collectGarbage (h : s.AgreesOn t x mine s') (hs : s.Sound) (hs' : s'.Sound)
    (hnarrow : s.Narrow t x mine) (hnarrow' : s'.Narrow t x mine) :
    s.collectGarbage.2.AgreesOn t x mine s'.collectGarbage.2 := by
  refine ⟨h.blocks.collectGarbage fun {t₁ b b'} hb hb' hrel => ⟨?_, fun ht => ?_⟩, h.calls⟩
  · exact ⟨hrel.same.name_eq, hrel.same.maxLocks_eq, hrel.same.allowMulti_eq⟩
  · subst ht
    rw [items_get?_survivors hs hb, items_get?_survivors hs' hb', hs.name_eq hb, hs'.name_eq hb',
      h.isNeeded_eq hs hs' hnarrow hnarrow', hrel.get?_eq rfl]

/-! ### Looks -/

theorem AgreesOn.info_eq (h : s.AgreesOn t x mine s') : s.info t x = s'.info t x := by
  unfold Service.info
  rcases h.blocks.block_cases t with ⟨e, he, he'⟩ | ⟨b, b', hb, hb', hrel⟩
  · rw [he, he']
  · rw [hb, hb']
    show Except.ok _ = Except.ok _
    rw [hrel.get?_eq rfl]

theorem AgreesOn.owners_eq (h : s.AgreesOn t x mine s') : s.owners t x = s'.owners t x := by
  unfold Service.owners
  rcases h.blocks.block_cases t with ⟨e, he, he'⟩ | ⟨b, b', hb, hb', hrel⟩
  · rw [he, he']
  · rw [hb, hb']
    show Except.ok _ = Except.ok _
    rw [hrel.get?_eq rfl]

theorem AgreesOn.isLocked_eq (h : s.AgreesOn t x mine s') : s.isLocked t x = s'.isLocked t x := by
  unfold isLocked
  rw [h.owners_eq]

end Service

/-! ### Scripts -/

namespace Moment

variable {t : String} {x : Int} {mine : List CallId} {m m' : Moment} {e : Event} {c : Cue}
  {rest : List Cue}

/-- Calls for one resource stay what they are. -/
theorem narrow_step (h : m.Sound) (hsingle : e.IsSingle)
    (hname : ∀ r, e = .request r → (m.nextCall ∈ mine ↔ r.resourceType = t ∧ r.ids = [x]))
    (hn : m.service.Narrow t x mine) : (m.step e).service.Narrow t x mine := by
  intro n c hc
  rcases call_origin h hc with ⟨c₀, hc₀, honward⟩ | ⟨r, users, rfl, rfl, _, honward⟩
  · obtain ⟨y, hfor, hmine⟩ := hn n c₀ hc₀
    exact ⟨y, hfor.onward honward, honward.resourceType_eq ▸ hmine⟩
  · obtain ⟨y, hy⟩ := hsingle
    refine ⟨y, (Service.isFor_callOf hy users m.now).onward honward, ?_⟩
    rw [hname r rfl, honward.resourceType_eq, hy, List.singleton_inj]
    rfl

/-- If only calls for the resource begin, only such calls are under way. -/
theorem only_step (h : m.Sound) (hname : ∀ r, e = .request r → m.nextCall ∈ mine)
    (honly : ∀ n c, m.service.calls.get? n = some c → n ∈ mine) (n : CallId) (c : Call)
    (hc : (m.step e).service.calls.get? n = some c) : n ∈ mine := by
  rcases call_origin h hc with ⟨c₀, hc₀, _⟩ | ⟨r, _, hr, hnext, _⟩
  · exact honly n c₀ hc₀
  · exact hnext ▸ hname r hr

/-- A moment of a script, and one of the same script without the cues that
do not concern the resource `x`. -/
structure Separated (t : String) (x : Int) (mine : List CallId) (rest : List Cue)
    (m m' : Moment) : Prop where
  now_eq : m.now = m'.now
  hosts : m.Hosts rest
  hosts' : m'.Hosts (rest.filter (Cue.concerns t x mine))
  single : ∀ c ∈ rest, c.event.IsSingle
  named : ∀ c ∈ rest, c.isRequest = true → (c.name ∈ mine ↔ c.concerns t x mine = true)
  narrow : m.service.Narrow t x mine
  narrow' : m'.service.Narrow t x mine
  only : ∀ n c, m'.service.calls.get? n = some c → n ∈ mine
  agrees : m.service.AgreesOn t x mine m'.service

/-- The name that a request gives its call tells whether it is made for the
resource. -/
theorem Separated.name_iff (h : Separated t x mine (c :: rest) m m') (m₁ : Moment) (r : Request)
    (hr : c.event = .request r) :
    (m₁.prepare c).nextCall ∈ mine ↔ r.resourceType = t ∧ r.ids = [x] := by
  obtain ⟨e, name⟩ := c
  cases hr
  have hiff := h.named _ List.mem_cons_self rfl
  exact hiff.trans decide_eq_true_iff

/-- What concerns the resource does the same on both sides. -/
theorem Separated.reply_eq (h : Separated t x mine (c :: rest) m m')
    (hkeep : c.concerns t x mine = true) :
    m.reply c = m'.reply c ∧ (m.act c).now = (m'.act c).now ∧
      (m.act c).service.AgreesOn t x mine (m'.act c).service := by
  have hs := h.hosts.sound.service
  have hs' := h.hosts'.sound.service
  have hagrees := h.agrees
  have hnow := h.now_eq
  obtain ⟨e, name⟩ := c
  cases e with
  | declare d =>
    obtain ⟨hresult, hstate⟩ := hagrees.createResource d
    exact ⟨answer_eq hnow (congrArg Result.declared hresult) rfl, hnow, hstate⟩
  | request r =>
    obtain ⟨htype, hids⟩ := of_decide_eq_true hkeep
    have hagree := hagrees.begin hs htype hids name m.now
    have hnow' : (m.prepare ⟨.request r, name⟩).now = (m'.prepare ⟨.request r, name⟩).now := hnow
    refine ⟨answer_eq hnow' ?_ ?_, hnow, ?_⟩
    · show Result.ran (m.service.begin name r m.now).1 = .ran (m'.service.begin name r m'.now).1
      rw [← hnow, hagree.result]
    · show (m.service.begin name r m.now).2.2 = (m'.service.begin name r m'.now).2.2
      rw [← hnow, hagree.woken]
    · show (m.service.begin name r m.now).2.1.AgreesOn t x mine
        (m'.service.begin name r m'.now).2.1
      rw [← hnow]
      exact hagree.state
  | wake n =>
    have hagree := hagrees.resume hs hs' h.narrow (of_decide_eq_true hkeep) m.now
    refine ⟨answer_eq hnow ?_ ?_, hnow, ?_⟩
    · show Result.ran (.ok (m.service.resume n m.now).1) = .ran (.ok (m'.service.resume n m'.now).1)
      rw [← hnow, hagree.result]
    · show (m.service.resume n m.now).2.2 = (m'.service.resume n m'.now).2.2
      rw [← hnow, hagree.woken]
    · show (m.service.resume n m.now).2.1.AgreesOn t x mine (m'.service.resume n m'.now).2.1
      rw [← hnow]
      exact hagree.state
  | unlock t' y p =>
    obtain ⟨rfl, rfl⟩ := of_decide_eq_true hkeep
    have hagree := hagrees.unlock hs p
    exact ⟨answer_eq hnow (congrArg Result.unlocked hagree.result) hagree.woken, hnow,
      hagree.state⟩
  | unlockAll t' ys p => cases hkeep
  | collect =>
    exact ⟨answer_eq hnow rfl rfl, hnow,
      hagrees.collectGarbage hs hs' h.narrow h.narrow'⟩
  | elapse ms => exact ⟨answer_eq hnow rfl rfl, congrArg (· + ms) hnow, hagrees⟩

/-- What does not concern the resource leaves it as it is. -/
theorem Separated.cut (h : Separated t x mine (c :: rest) m m')
    (hcut : c.concerns t x mine = false) :
    (m.act c).now = m.now ∧ (m.act c).service.AgreesOn t x mine m'.service := by
  have hs := h.hosts.sound.service
  have hsingle := h.single c List.mem_cons_self
  have hname := h.named c List.mem_cons_self
  obtain ⟨e, name⟩ := c
  cases e with
  | declare d => cases hcut
  | request r =>
    obtain ⟨y, hy⟩ := hsingle
    have hoff : ¬ (r.resourceType = t ∧ y = x) := by
      have hne := of_decide_eq_false hcut
      rwa [hy, List.singleton_inj] at hne
    have hn : name ∉ mine := fun hmem => by
      have htrue := (hname rfl).mp hmem
      rw [hcut] at htrue
      cases htrue
    exact ⟨rfl, h.agrees.begin_left hs hy hoff hn m.now⟩
  | wake n => exact ⟨rfl, h.agrees.resume_left hs h.narrow (of_decide_eq_false hcut) m.now⟩
  | unlock t' y p => exact ⟨rfl, h.agrees.unlock_left hs (of_decide_eq_false hcut) p⟩
  | unlockAll t' ys p => exact hsingle.elim
  | collect => cases hcut
  | elapse ms => cases hcut

/-- Time may pass without the other calls if it may pass with them. -/
theorem Separated.prompt (h : Separated t x mine rest m m') (hprompt : m.Prompt e) :
    m'.Prompt e := by
  cases e with
  | elapse ms =>
    intro hms
    obtain ⟨hsettled, hdeadlines⟩ := hprompt hms
    constructor
    · rintro d ⟨t₁, b', y, hb', hd⟩
      -- Whoever has a permit in hand waits for the resource, and has it on both sides.
      obtain ⟨c, hc, htype, hhead⟩ := (h.hosts'.sound.service.place hb' y d).mp
        (List.mem_append_right _ hd)
      obtain ⟨z, hfor, hmine⟩ := h.narrow' d c hc
      obtain ⟨htype', rfl⟩ := hmine.mp (h.only d c hc)
      rw [hfor.ids_eq] at hhead
      cases hhead
      obtain rfl : t₁ = t := htype.symm.trans htype'
      obtain ⟨b, hb, hrel⟩ := h.agrees.blocks.of_get?_right hb'
      exact hsettled d ⟨t₁, b, _, hb, hrel.item_eq ▸ hd⟩
    · intro n c d hc hd
      rw [← h.now_eq]
      exact hdeadlines n c d ((h.agrees.calls n (h.only n c hc)).trans hc) hd
  | _ => trivial

/-- The cues that do not concern a resource can be cut. -/
theorem separated_tracks (t : String) (x : Int) (mine : List CallId) :
    Tracks (Cue.concerns t x mine) (Separated t x mine) where
  kept {c rest m m'} h hkeep := by
    obtain ⟨hreply, hnow, hagrees⟩ := h.reply_eq hkeep
    have hhosts' := h.hosts'
    rw [List.filter_cons_of_pos hkeep] at hhosts'
    have hsingle := h.single c List.mem_cons_self
    refine ⟨hreply, hnow, h.hosts.act, hhosts'.act, fun d hd => h.single d (.tail c hd),
      fun d hd => h.named d (.tail c hd), ?_, ?_, ?_, hagrees⟩
    · exact narrow_step h.hosts.prepare hsingle (h.name_iff m) (service_prepare m c ▸ h.narrow)
    · exact narrow_step hhosts'.prepare hsingle (h.name_iff m') (service_prepare m' c ▸ h.narrow')
    · refine only_step hhosts'.prepare (fun r hr => ?_) (service_prepare m' c ▸ h.only)
      obtain ⟨e, name⟩ := c
      cases hr
      exact (h.named _ List.mem_cons_self rfl).mpr hkeep
  cut {c rest m m'} h hcut := by
    obtain ⟨hnow, hagrees⟩ := Separated.cut h hcut
    have hhosts' := h.hosts'
    rw [List.filter_cons_of_neg (by rw [hcut]; exact Bool.false_ne_true)] at hhosts'
    have hsingle := h.single c List.mem_cons_self
    exact ⟨hnow.trans h.now_eq, h.hosts.act, hhosts', fun d hd => h.single d (.tail c hd),
      fun d hd => h.named d (.tail c hd),
      narrow_step h.hosts.prepare hsingle (h.name_iff m) (service_prepare m c ▸ h.narrow),
      h.narrow', h.only, hagrees⟩
  prompt h := h.prompt

theorem mem_askers {cs : List Cue} {name : CallId} :
    name ∈ askers t x cs ↔ ∃ c ∈ cs, c.asksFor t x = true ∧ c.name = name := by
  simp [askers, and_assoc]

/-- In a script whose calls have names of their own, the calls that are made
for a resource are told by their names. -/
theorem name_mem_askers {cs : List Cue} (hnamed : Named cs) (hc : c ∈ cs)
    (hrequest : c.isRequest = true) :
    c.name ∈ askers t x cs ↔ c.concerns t x (askers t x cs) = true := by
  have hsame : c.asksFor t x = c.concerns t x (askers t x cs) := by
    obtain ⟨e, name⟩ := c
    cases e with
    | request r => rfl
    | _ => cases hrequest
  rw [mem_askers, ← hsame]
  constructor
  · rintro ⟨d, hd, hasks, hname⟩
    have hother : d.isRequest = true := by
      obtain ⟨e, name⟩ := d
      cases e with
      | request r => rfl
      | _ => cases hasks
    have hdc : d = c := hnamed.eq_of_name_eq hd hc hother hrequest hname
    exact hdc ▸ hasks
  · intro hasks
    exact ⟨c, hc, hasks, rfl⟩

/-- Resources do not interfere. In a script of calls for one resource each,
unlocks of one, declarations, collections and the clock, what concerns a
resource has the same answers, at the same time, as in the script from which
everything has been cut that does not concern it; and whoever looks at the
resource sees the same at every moment. If the scheduler is prompt with the
whole script, it is prompt with what is left, so nobody has waited for a
call on another resource. -/
theorem resources_do_not_interfere (cs : List Cue) (hnamed : Named cs)
    (hsingle : ∀ c ∈ cs, c.event.IsSingle) (t : String) (x : Int) :
    let keep := Cue.concerns t x (askers t x cs)
    (replies {} cs).filter (fun r => keep r.1) = replies {} (cs.filter keep) ∧
      (∀ n, let m := play {} (cs.take n)
        let m' := play {} ((cs.take n).filter keep)
        m.now = m'.now ∧ m.service.info t x = m'.service.info t x ∧
          m.service.owners t x = m'.service.owners t x ∧
          m.service.isLocked t x = m'.service.isLocked t x) ∧
      (Punctual {} cs → Punctual {} (cs.filter keep)) := by
  intro keep
  have htracks := separated_tracks t x (askers t x cs)
  have hstart : Separated t x (askers t x cs) cs {} {} :=
    { now_eq := rfl
      hosts := hosts_start hnamed
      hosts' := hosts_start (hnamed.sublist List.filter_sublist)
      single := hsingle
      named := fun c hc hrequest => name_mem_askers hnamed hc hrequest
      narrow := fun _ _ h => nomatch h
      narrow' := fun _ _ h => nomatch h
      only := fun _ _ h => nomatch h
      agrees := ⟨Service.paired_empty _, fun _ _ => rfl⟩ }
  have hwhole : Separated t x (askers t x cs) (cs ++ []) {} {} :=
    (List.append_nil cs).symm ▸ hstart
  refine ⟨(htracks.replies_filter hwhole).1, fun n => ?_, htracks.punctual_filter hwhole⟩
  have hsplit : Separated t x (askers t x cs) (cs.take n ++ cs.drop n) {} {} :=
    (List.take_append_drop n cs).symm ▸ hstart
  obtain ⟨_, hlast⟩ := htracks.replies_filter hsplit
  exact ⟨hlast.now_eq, hlast.agrees.info_eq, hlast.agrees.owners_eq, hlast.agrees.isLocked_eq⟩

/-- Two users want the bed 1 and two others the bed 2. Of those who wait, one
gives up and one is let in. -/
def twoBeds : List Cue :=
  [⟨.declare ⟨"bed", 1, false⟩, 0⟩,
   ⟨.request ⟨"bed", [1], .one 10, none⟩, 0⟩,
   ⟨.request ⟨"bed", [2], .one 30, none⟩, 1⟩,
   ⟨.request ⟨"bed", [1], .one 20, some 50⟩, 2⟩,
   ⟨.request ⟨"bed", [2], .one 40, none⟩, 3⟩,
   ⟨.elapse 20, 0⟩,
   ⟨.unlock "bed" 2 (.one 30), 0⟩,
   ⟨.wake 3, 0⟩,
   ⟨.elapse 30, 0⟩,
   ⟨.wake 2, 0⟩,
   ⟨.collect, 0⟩,
   ⟨.unlock "bed" 1 (.one 10), 0⟩]

/-- The same without the bed 2. -/
def oneBed : List Cue :=
  [⟨.declare ⟨"bed", 1, false⟩, 0⟩,
   ⟨.request ⟨"bed", [1], .one 10, none⟩, 0⟩,
   ⟨.request ⟨"bed", [1], .one 20, some 50⟩, 2⟩,
   ⟨.elapse 20, 0⟩,
   ⟨.elapse 30, 0⟩,
   ⟨.wake 2, 0⟩,
   ⟨.collect, 0⟩,
   ⟨.unlock "bed" 1 (.one 10), 0⟩]

theorem punctual_twoBeds : Punctual {} twoBeds :=
  ⟨trivial, trivial, trivial, trivial, trivial, prompt_of_entries (by decide) (by decide), trivial,
    trivial, prompt_of_entries (by decide) (by decide), trivial, trivial, trivial, trivial⟩

/-- The bed 1 is not touched by what happens to the bed 2. -/
theorem resources_do_not_interfere_twoBeds :
    Named twoBeds ∧ (∀ c ∈ twoBeds, c.event.IsSingle) ∧
      (replies {} twoBeds).filter (fun r => Cue.concerns "bed" 1 [0, 2] r.1) = replies {} oneBed ∧
      (∀ n, (play {} (twoBeds.take n)).service.info "bed" 1
        = (play {} ((twoBeds.take n).filter (Cue.concerns "bed" 1 [0, 2]))).service.info "bed" 1) ∧
      Punctual {} oneBed := by
  have hnamed : Named twoBeds := by decide
  have hsingle : ∀ c ∈ twoBeds, c.event.IsSingle := by
    simp [twoBeds, Event.IsSingle]
  have hmine : askers "bed" 1 twoBeds = [0, 2] := by decide
  have hone : twoBeds.filter (Cue.concerns "bed" 1 [0, 2]) = oneBed := by decide
  obtain ⟨hreplies, hlooks, hpunctual⟩ :=
    resources_do_not_interfere twoBeds hnamed hsingle "bed" 1
  rw [hmine] at hreplies hlooks hpunctual
  rw [hone] at hreplies hpunctual
  exact ⟨hnamed, hsingle, hreplies, fun n => (hlooks n).2.1, hpunctual punctual_twoBeds⟩

end Moment

end Backplane.Lock
