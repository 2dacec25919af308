import Backplane.Proofs.Lock.Wakeup

/-!
# `Backplane.Proofs.Lock.Handover`: a permit in hand stays there

`Backplane.Proofs.Lock.Wakeup` shows that whoever has a permit in hand has
been woken. Here is the way back: whoever is woken has a permit in hand
afterwards, and keeps it until the call is let run. No other call and no
unlock can take it away again. The main statements:

* `Block.hands_proceed`, `Block.hands_resume`: runs of other calls.
* `hasPermit_of_woken`: all events.
-/

set_option autoImplicit false

namespace Backplane.Lock

namespace Block

/-- From `b` to `b'`, the call `d` keeps every permit that it has in hand,
and it gets one if it is woken. -/
structure Hands (d : CallId) (b b' : Block) (woken : List CallId) : Prop where
  kept : ∀ x, d ∈ (b.item x).handed → d ∈ (b'.item x).handed
  given : d ∈ woken → ∃ x, d ∈ (b'.item x).handed

variable {d name : CallId} {b b₁ b' : Block} {woken more : List CallId} {id : Int} {i : Item}

theorem Hands.refl (d : CallId) (b : Block) : Hands d b b [] := ⟨fun _ => id, fun h => nomatch h⟩

theorem Hands.trans (h : Hands d b b₁ woken) (h' : Hands d b₁ b' more) :
    Hands d b b' (woken ++ more) := by
  refine ⟨fun x hx => h'.kept x (h.kept x hx), fun hd => ?_⟩
  rcases List.mem_append.mp hd with hd | hd
  · obtain ⟨x, hx⟩ := h.given hd
    exact ⟨x, h'.kept x hx⟩
  · exact h'.given hd

/-- One lock is written to. -/
theorem hands_setItem (hkept : d ∈ (b.item id).handed → d ∈ i.handed)
    (hgiven : d ∈ woken → d ∈ i.handed) : Hands d b (b.setItem id i) woken := by
  refine ⟨fun x hx => ?_, fun hd => ⟨id, ?_⟩⟩
  · rw [item_setItem]
    split
    · rename_i heq
      exact hkept (heq ▸ hx)
    · exact hx
  · rw [item_setItem_self]
    exact hgiven hd

/-- Permits are handed out at one lock, and none is taken from a hand. -/
theorem hands_append (h : i.handed = (b.item id).handed ++ woken) :
    Hands d b (b.setItem id i) woken :=
  hands_setItem (fun hd => h ▸ List.mem_append_left _ hd) fun hd => h ▸ List.mem_append_right _ hd

/-- No permit moves. -/
theorem hands_same (h : i.handed = (b.item id).handed) : Hands d b (b.setItem id i) [] :=
  hands_append (by rw [h, List.append_nil])

theorem hands_rollBack (d : CallId) (b : Block) (c : Call) :
    Hands d b (b.rollBack c).1 (b.rollBack c).2 := by
  -- The induction is on the noted ids, with what has been rolled back so far.
  suffices h : ∀ (ids : List Int) (s : Block × List CallId), Hands d b s.1 s.2 →
      Hands d b (ids.foldl (undoStep c.users) s).1 (ids.foldl (undoStep c.users) s).2 by
    rw [rollBack_eq]
    exact h c.taken (b, []) (Hands.refl d b)
  intro ids
  induction ids with
  | nil => exact fun _ hs => hs
  | cons id rest ih =>
    intro s hs
    exact ih _ (hs.trans (hands_append (Item.handed_revoke _ _)))

theorem hands_giveUp (d : CallId) (b : Block) (c : Call) :
    Hands d b (b.giveUp c).2.1 (b.giveUp c).2.2 := hands_rollBack d b c

theorem hands_proceed (d : CallId) (b : Block) (name : CallId) (c : Call) (now : Nat)
    (ids : List Int) :
    Hands d b (b.proceed name c now ids).2.1 (b.proceed name c now ids).2.2 := by
  induction ids generalizing b c with
  | nil => exact Hands.refl d b
  | cons id rest ih =>
    have htouch : Hands d b (b.setItem id (b.item id)) [] := hands_same rfl
    simp only [proceed]
    split
    · exact htouch.trans (ih _ c)
    · split
      · rename_i i htake
        have hsame : (i.grant c.users).handed = (b.item id).handed := by
          unfold Item.takePermit? at htake
          split at htake
          · cases htake
            rfl
          · cases htake
        exact (hands_same hsame).trans (ih _ _)
      · split
        · exact htouch.trans (hands_giveUp d _ c)
        · exact hands_same rfl

/-- A call that runs gives up its own permit, and nobody else's. -/
theorem hands_resume (hother : d ≠ name) (b : Block) (c : Call) (now : Nat) :
    Hands d b (b.resume name c now).2.1 (b.resume name c now).2.2 := by
  have hunhand : ∀ i : Item, d ∈ i.handed → d ∈ (i.unhand name).handed := fun i hd =>
    List.mem_filter.mpr ⟨hd, decide_eq_true hother⟩
  unfold resume
  cases c.ids with
  | nil => exact Hands.refl d b
  | cons id rest =>
    simp only
    split
    · unfold takeHanded
      simp only
      split
      · refine (hands_setItem (fun hd => ?_) fun hd => ?_).trans (hands_proceed d _ name c now rest)
        · exact List.mem_append_left _ (hunhand _ hd)
        · exact List.mem_append_right _ hd
      · have hgrant : Hands d b (b.setItem id (((b.item id).unhand name).grant c.users)) [] :=
          hands_setItem (hunhand _) fun hd => nomatch hd
        exact hgrant.trans (hands_proceed d _ name _ now rest)
    · split
      · have hleave : Hands d b (b.setItem id ((b.item id).leave name)) [] := hands_same rfl
        exact hleave.trans (hands_giveUp d _ c)
      · exact Hands.refl d b

/-! ### The type of the locks -/

theorem name_giveUp (b : Block) (c : Call) : (b.giveUp c).2.1.name = b.name := by
  -- The induction is on the noted ids, with what has been rolled back so far.
  suffices h : ∀ (ids : List Int) (s : Block × List CallId),
      (ids.foldl (undoStep c.users) s).1.name = s.1.name from h c.taken (b, [])
  intro ids
  induction ids with
  | nil => exact fun _ => rfl
  | cons id rest ih => exact fun s => ih (undoStep c.users s id)

theorem name_proceed (b : Block) (name : CallId) (c : Call) (now : Nat) (ids : List Int) :
    (b.proceed name c now ids).2.1.name = b.name := by
  induction ids generalizing b c with
  | nil => rfl
  | cons id rest ih =>
    simp only [proceed]
    split
    · exact ih _ c
    · split
      · exact ih _ _
      · split
        · exact name_giveUp _ c
        · rfl

theorem name_resume (b : Block) (name : CallId) (c : Call) (now : Nat) :
    (b.resume name c now).2.1.name = b.name := by
  unfold resume
  cases c.ids with
  | nil => rfl
  | cons id rest =>
    simp only
    split
    · unfold takeHanded
      simp only
      split
      · exact name_proceed _ name c now rest
      · exact name_proceed _ name _ now rest
    · split
      · exact name_giveUp _ c
      · rfl

end Block

namespace Service

variable {d name : CallId} {s s₁ s' : Service} {woken more : List CallId} {t : String}
  {b b' : Block} {p : Party}

/-- From `s` to `s'`, the call `d` keeps its permit in hand, and it gets one
if it is woken. -/
def Hands (d : CallId) (s s' : Service) (woken : List CallId) : Prop :=
  s.HasPermit d ∨ d ∈ woken → s'.HasPermit d

theorem Hands.refl (d : CallId) (s : Service) : Hands d s s [] :=
  fun h => h.resolve_right List.not_mem_nil

theorem Hands.trans (h : Hands d s s₁ woken) (h' : Hands d s₁ s' more) :
    Hands d s s' (woken ++ more) := by
  rintro (hd | hd)
  · exact h' (.inl (h (.inl hd)))
  · rcases List.mem_append.mp hd with hd | hd
    · exact h' (.inl (h (.inr hd)))
    · exact h' (.inr hd)

/-- The locks of one type are written to. -/
theorem hands_insert (hb : s.blocks.get? t = some b) (h : b.Hands d b' woken)
    (calls : Table CallId Call) :
    Hands d s { blocks := s.blocks.insert t b', calls } woken := by
  have hnew : ({ blocks := s.blocks.insert t b', calls } : Service).blocks.get? t = some b' := by
    show (s.blocks.insert t b').get? t = some b'
    rw [Table.get?_insert, if_pos rfl]
  rintro (⟨t₁, b₁, x, hb₁, hx⟩ | hd)
  · by_cases ht : t₁ = t
    · subst ht
      rw [hb] at hb₁
      cases hb₁
      exact ⟨t₁, b', x, hnew, h.kept x hx⟩
    · refine ⟨t₁, b₁, x, ?_, hx⟩
      show (s.blocks.insert t b').get? t₁ = some b₁
      rw [Table.get?_insert, if_neg ht, hb₁]
  · obtain ⟨x, hx⟩ := h.given hd
    exact ⟨t, b', x, hnew, hx⟩

/-- The run of a call is stored. -/
theorem hands_record (hb : s.blocks.get? t = some b) {step : Progress × Block × List CallId}
    (hname : step.2.1.name = t) (h : b.Hands d step.2.1 step.2.2) (name : CallId) :
    Hands d s (s.record name step).2.1 (s.record name step).2.2 := by
  obtain ⟨p, b', woken⟩ := step
  subst hname
  exact hands_insert hb h _

theorem hands_unlock (h : s.Sound) (d : CallId) (t : String) (id : Int) (p : Party) :
    Hands d s (s.unlock t id p).2.1 (s.unlock t id p).2.2 := by
  rcases unlock_cases s t id p with ⟨e, he⟩ | ⟨b, users, i, j, woken, hresolve, hget, hrelease, hok⟩
  · rw [he]
    exact Hands.refl d s
  · have hb := (resolve_ok hresolve).1
    have hhanded := Item.handed_unlock hrelease
    rw [← Block.item_of_get? hget] at hhanded
    rw [hok]
    show Hands d s { s with blocks := s.blocks.insert b.name (b.setItem id j) } woken
    rw [h.name_eq hb]
    exact hands_insert hb (Block.hands_append hhanded) _

theorem hands_unlockAll (h : s.Sound) (d : CallId) (t : String) (ids : List Int) (p : Party) :
    Hands d s (s.unlockAll t ids p).2.1 (s.unlockAll t ids p).2.2 := by
  rw [unlockAll_eq]
  split
  · exact Hands.refl d s
  · -- The induction is on the ids, with what has been unlocked so far.
    suffices hfold : ∀ (acc : Except Error Unit × Service × List CallId), acc.2.1.Sound →
        Hands d s acc.2.1 acc.2.2 →
        Hands d s (ids.foldl (unlockStep t p) acc).2.1 (ids.foldl (unlockStep t p) acc).2.2 from
      hfold (.ok (), s, []) h (Hands.refl d s)
    induction ids with
    | nil => exact fun _ _ hacc => hacc
    | cons id rest ih =>
      intro acc hsound hacc
      exact ih _ (hsound.steady (steady_unlock hsound t id p))
        (hacc.trans (hands_unlock hsound d t id p))

theorem hands_begin (h : s.Sound) (d name : CallId) (r : Request) (now : Nat) :
    Hands d s (s.begin name r now).2.1 (s.begin name r now).2.2 := by
  unfold begin
  cases hresolve : s.resolve r.resourceType r.party with
  | error e => exact Hands.refl d s
  | ok found =>
    obtain ⟨b, users⟩ := found
    have hb := (resolve_ok hresolve).1
    exact hands_record hb ((Block.name_proceed _ _ _ _ _).trans (h.name_eq hb))
      (Block.hands_proceed d b name (callOf r users now) now _) name

theorem hands_resume (h : s.Sound) (hother : d ≠ name) (now : Nat) :
    Hands d s (s.resume name now).2.1 (s.resume name now).2.2 := by
  unfold resume
  cases hc : s.calls.get? name with
  | none => exact Hands.refl d s
  | some c =>
    cases hb : s.blocks.get? c.resourceType with
    | none =>
      simp only [hb]
      exact Hands.refl d s
    | some b =>
      simp only [hb]
      exact hands_record hb ((Block.name_resume b name c now).trans (h.name_eq hb))
        (Block.hands_resume hother b c now) name

theorem hasPermit_kept_declared {decl : TypeDecl} (h : Declared decl s s')
    (hd : s.HasPermit d) : s'.HasPermit d := by
  obtain ⟨t, b, x, hb, hx⟩ := hd
  exact ⟨t, b, x, h.kept hb, hx⟩

/-- A lock with a permit in somebody's hand is not collected. -/
theorem hasPermit_kept_collectGarbage (h : s.Sound) (hd : s.HasPermit d) :
    s.collectGarbage.2.HasPermit d := by
  obtain ⟨t, b, x, hb, hx⟩ := hd
  refine ⟨t, s.survivors b, x, ?_, ?_⟩
  · rw [blocks_get?_collectGarbage, hb, Option.map_some]
  · rcases item_survivors h hb x with heq | ⟨_, _, hqueue⟩
    · rw [heq]
      exact hx
    · rw [List.append_eq_nil_iff.mp hqueue |>.2] at hx
      cases hx

end Service

namespace Moment

variable {m : Moment} {e : Event} {d : CallId}

/-- Whoever is woken by an event, or has a permit in hand and is not let run
by it, has a permit in hand afterwards. -/
theorem hasPermit_of_woken (h : m.Sound) (hother : e ≠ .wake d)
    (hd : m.service.HasPermit d ∨ d ∈ m.woken e) : (m.step e).service.HasPermit d := by
  cases e with
  | declare decl =>
    have hd := hd.resolve_right List.not_mem_nil
    show ((m.service.createResource decl).toOption.getD m.service).HasPermit d
    cases hdecl : m.service.createResource decl with
    | error e => exact hd
    | ok s' =>
      rcases Service.createResource_cases hdecl with rfl | hdeclared
      · exact hd
      · exact Service.hasPermit_kept_declared hdeclared hd
  | request r => exact Service.hands_begin h.service d _ r _ hd
  | wake name =>
    have hne : d ≠ name := fun heq => hother (heq ▸ rfl)
    exact Service.hands_resume h.service hne _ hd
  | unlock t id p => exact Service.hands_unlock h.service d t id p hd
  | unlockAll t ids p => exact Service.hands_unlockAll h.service d t ids p hd
  | collect =>
    exact Service.hasPermit_kept_collectGarbage h.service (hd.resolve_right List.not_mem_nil)
  | elapse ms => exact hd.resolve_right List.not_mem_nil

end Moment

end Backplane.Lock
