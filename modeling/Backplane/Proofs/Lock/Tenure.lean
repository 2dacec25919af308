import Backplane.Proofs.Lock.Ledger

/-!
# `Backplane.Proofs.Lock.Tenure`: owners come and go, on types of both kinds

`Moment.gained` and `Moment.lost` follow the owners of a type for single
owners. On a type with shared grants an unlock can end the ownership of
users whom it does not name, and the changes that `Service.Steady` allows do
not say of which resource. So the unlocks are looked at here one by one. The
main statements:

* `becomes_owner`: nobody becomes an owner but by a call that runs.
* `ceases_to_own`: an ownership ends by an unlock, or because a call takes
  its grant back.
* `begun_at`: every call under way has been begun by a request, and is what
  has become of it.
-/

set_option autoImplicit false

namespace Backplane.Lock

/-- The event is an unlock that names the resource. -/
def Event.Unlocks : Event → String → Int → Prop
  | .unlock resourceType id _, t, x => t = resourceType ∧ x = id
  | .unlockAll resourceType ids _, t, x => t = resourceType ∧ x ∈ ids
  | _, _, _ => False

/-! ### Locks that an unlock does not name -/

namespace Service

/-- The lock of a resource of a declared type, as `Block.item` gives it. -/
def lock (s : Service) (t : String) (x : Int) : Option Item :=
  (s.blocks.get? t).map fun b => b.item x

variable {s : Service} {t : String} {x : Int}

theorem lock_of_get? {b : Block} (hb : s.blocks.get? t = some b) : s.lock t x = some (b.item x) := by
  unfold lock
  rw [hb]
  rfl

/-- An unlock leaves all locks alone but one. -/
theorem lock_unlock (h : s.Sound) {t₁ : String} {id : Int} (hother : ¬ (t = t₁ ∧ x = id))
    (p : Party) : (s.unlock t₁ id p).2.1.lock t x = s.lock t x := by
  rcases unlock_cases s t₁ id p with ⟨e, he⟩ | ⟨b, users, i, j, woken, hresolve, _, _, hok⟩
  · rw [he]
  · have hb := (resolve_ok hresolve).1
    rw [hok]
    show ((s.blocks.insert b.name (b.setItem id j)).get? t).map _ = (s.blocks.get? t).map _
    rw [h.name_eq hb, Table.get?_insert]
    split
    · rename_i ht
      have hx : x ≠ id := fun hx => hother ⟨ht, hx⟩
      rw [ht, hb]
      exact congrArg some (Block.item_setItem_ne b j hx)
    · rfl

/-- So do unlocks one after the other. -/
private theorem lock_unlocks {t₁ : String} (p : Party) (ids : List Int)
    (hother : ¬ (t = t₁ ∧ x ∈ ids)) (acc : Except Error Unit × Service × List CallId)
    (h : acc.2.1.Sound) :
    (ids.foldl (unlockStep t₁ p) acc).2.1.lock t x = acc.2.1.lock t x := by
  induction ids generalizing acc with
  | nil => rfl
  | cons id rest ih =>
    have hid : ¬ (t = t₁ ∧ x = id) := fun ⟨ht, hx⟩ => hother ⟨ht, hx ▸ List.mem_cons_self⟩
    have hrest : ¬ (t = t₁ ∧ x ∈ rest) := fun ⟨ht, hx⟩ => hother ⟨ht, List.mem_cons_of_mem id hx⟩
    have hsound := h.steady (steady_unlock h t₁ id p)
    exact (ih hrest (unlockStep t₁ p acc id) hsound).trans (lock_unlock h hid p)

theorem lock_unlockAll (h : s.Sound) {t₁ : String} {ids : List Int}
    (hother : ¬ (t = t₁ ∧ x ∈ ids)) (p : Party) :
    (s.unlockAll t₁ ids p).2.1.lock t x = s.lock t x := by
  rw [unlockAll_eq]
  split
  · rfl
  · exact lock_unlocks p ids hother (.ok (), s, []) h

end Service

/-! ### Calls further on -/

theorem Call.Onward.trans {c₁ c₂ c₃ : Call} (h : c₁.Onward c₂) (h' : c₂.Onward c₃) :
    c₁.Onward c₃ where
  toContinues := h.toContinues.trans h'.toContinues
  ids_ne_nil := h'.ids_ne_nil
  sublist := h'.sublist.trans h.sublist
  taken_eq hnone := (h'.taken_eq (h.deadline_eq.trans hnone)).trans (h.taken_eq hnone)

/-- A plain call stays plain as long as it is under way. -/
theorem Call.Plain.onward {c c' : Call} (h : c.Plain) (ho : c.Onward c') : c'.Plain := by
  have hlen := ho.sublist.length_le
  rw [h.taken_eq, List.nil_append, List.length_append] at hlen
  refine ⟨?_, fun hdeadline => ?_⟩
  · cases hd : c.deadline with
    | none => rw [ho.taken_eq hd, h.taken_eq]
    | some limit =>
      -- There is one id at most, and the call has still to lock it.
      have hone := h.ids_le (by rw [hd]; rfl)
      have hpos := List.length_pos_iff.mpr ho.ids_ne_nil
      exact List.eq_nil_of_length_eq_zero (by omega)
  · have hone := h.ids_le (ho.deadline_eq ▸ hdeadline)
    omega

namespace Moment

variable {m : Moment} {t : String} {x u : Int} {e : Event}

theorem isOwner_iff_lock (m : Moment) (t : String) (x u : Int) :
    m.IsOwner t x u ↔ ∃ i, m.service.lock t x = some i ∧ u ∈ i.owners := by
  unfold Service.lock
  cases hb : m.service.blocks.get? t with
  | none => exact iff_of_false (not_isOwner_of_none hb u) fun ⟨_, hi, _⟩ => nomatch hi
  | some b =>
    rw [isOwner_iff hb, Option.map_some]
    exact ⟨fun hu => ⟨_, rfl, hu⟩, fun ⟨_, hi, hu⟩ => Option.some.inj hi ▸ hu⟩

instance (m : Moment) (t : String) (x u : Int) : Decidable (m.IsOwner t x u) :=
  match hi : m.service.lock t x with
  | none => .isFalse fun h => by
    obtain ⟨_, hi', _⟩ := (isOwner_iff_lock m t x u).mp h
    cases hi.symm.trans hi'
  | some i => decidable_of_iff (u ∈ i.owners) <| by
    rw [isOwner_iff_lock, hi]
    exact ⟨fun hu => ⟨i, rfl, hu⟩, fun ⟨_, hi', hu⟩ => Option.some.inj hi' ▸ hu⟩

/-- The owners of a lock are those of any moment with the same lock. -/
theorem isOwner_of_lock_eq {m' : Moment} (h : m'.service.lock t x = m.service.lock t x) :
    m'.IsOwner t x u ↔ m.IsOwner t x u := by
  rw [isOwner_iff_lock, isOwner_iff_lock, h]

/-- Nobody becomes an owner but by a call that runs and asks for the
resource. -/
theorem becomes_owner (h : m.Sound) (hbefore : ¬ m.IsOwner t x u)
    (hafter : (m.step e).IsOwner t x u) :
    ∃ name c p, Runs m name c p e ∧ c.resourceType = t ∧ x ∈ c.ids ∧ u ∈ c.users := by
  obtain ⟨b', hb', hu⟩ := hafter
  cases step_cases h e with
  | steady hs =>
    obtain ⟨b, hb, hsteady⟩ := hs.of_get? hb'
    -- Such a change makes nobody an owner, so the user was one before.
    refine absurd ⟨b, hb, ?_⟩ hbefore
    cases hmulti : b.allowMulti with
    | false => exact (hsteady.item x).owners hmulti u hu
    | true =>
      rcases (hsteady.item x).ended hmulti with ⟨howners, _⟩ | ⟨howners, _⟩
      · exact howners ▸ hu
      · rw [howners] at hu
        cases hu
  | declared d hd =>
    rw [hd.get? t] at hb'
    split at hb'
    · -- A new lock has no owner.
      cases hb'
      cases hu
    · exact absurd ⟨b', hb', hu⟩ hbefore
  | @ran name b b₁ c p hruns hran =>
    rw [hran.get? t] at hb'
    split at hb'
    · rename_i ht
      cases hb'
      have hnot : u ∉ (b.item x).owners := fun hown => hbefore ⟨b, ht ▸ hran.found, hown⟩
      rcases hran.run.owners hran.ready with ⟨granted, hgranted, howners, _⟩ | ⟨_, _, howners⟩
      · obtain ⟨hx, hmem⟩ := ((howners x u).mp hu).resolve_left hnot
        exact ⟨name, c, p, hruns, ht.symm, (hgranted x hx).1, hmem⟩
      · exact absurd ((howners x u).mp hu).1 hnot
    · exact absurd ⟨b', hb', hu⟩ hbefore

/-- What lets no call run and is no unlock of a resource leaves its owners
alone. -/
theorem isOwner_of_idle (h : m.Sound) (hidle : m.caller? e = none) (hnot : ¬ e.Unlocks t x)
    (hown : m.IsOwner t x u) : (m.step e).IsOwner t x u := by
  cases e with
  | declare d =>
    obtain ⟨b, hb, hu⟩ := hown
    refine ⟨b, ?_, hu⟩
    show ((m.service.createResource d).toOption.getD m.service).blocks.get? t = some b
    cases hd : m.service.createResource d with
    | error _ => exact hb
    | ok s' =>
      rcases Service.createResource_cases hd with rfl | hdeclared
      · exact hb
      · exact hdeclared.kept hb
  | request r => cases hidle
  | wake name => cases hidle
  | unlock t₁ id p => exact (isOwner_of_lock_eq (Service.lock_unlock h.service hnot p)).mpr hown
  | unlockAll t₁ ids p =>
    exact (isOwner_of_lock_eq (Service.lock_unlockAll h.service hnot p)).mpr hown
  | collect =>
    obtain ⟨b, hb, hu⟩ := hown
    refine ⟨m.service.survivors b, ?_, ?_⟩
    · show m.service.collectGarbage.2.blocks.get? t = _
      rw [Service.blocks_get?_collectGarbage, hb]
      rfl
    · rcases Service.item_survivors h.service hb x with heq | ⟨_, hfree, _⟩
      · rw [heq]
        exact hu
      · exact absurd hu (Item.not_mem_owners_of_isFree hfree u)
  | elapse ms => exact hown

/-- A run of a call ends an ownership only by taking a grant back. -/
theorem takesBack_of_ran {name : CallId} {c : Call} {p : Progress} {b b' : Block} (m' : Moment)
    (hran : Service.Ran name m.now m.service b c p m'.service b') (hbefore : m.IsOwner t x u)
    (hafter : ¬ m'.IsOwner t x u) :
    c.resourceType = t ∧ p = .done false ∧ x ∈ c.taken ∧ u ∈ c.users := by
  obtain ⟨b₁, hb₁, hu⟩ := hbefore
  have hget := hran.get? t
  split at hget
  · rename_i ht
    have hfound := hran.found
    rw [← ht, hb₁] at hfound
    cases hfound
    have hlost : u ∉ (b'.item x).owners := fun hu' => hafter ⟨b', hget, hu'⟩
    refine ⟨ht.symm, ?_⟩
    rcases hran.run.owners hran.ready with ⟨granted, _, howners, _⟩ | ⟨hp, _, howners⟩
    · exact absurd ((howners x u).mpr (.inl hu)) hlost
    · refine ⟨hp, ?_⟩
      by_contra hnot
      exact hlost ((howners x u).mpr ⟨hu, hnot⟩)
  · exact absurd ⟨b₁, hget.trans hb₁, hu⟩ hafter

/-- So does an event that lets a call run. -/
theorem takesBack_of_caller (h : m.Sound) {name : CallId} (hcaller : m.caller? e = some name)
    (hbefore : m.IsOwner t x u) (hafter : ¬ (m.step e).IsOwner t x u) :
    e = .wake name ∧ m.TakesBack name t x u := by
  have hsame : (m.step e).service.lock t x ≠ m.service.lock t x := fun heq =>
    hafter ((isOwner_of_lock_eq heq).mpr hbefore)
  cases e with
  | request r =>
    rcases Service.begin_cases h.service h.nextCall_free r m.now with
      ⟨e, he⟩ | ⟨users, b₁, p, b', _, _, hran⟩
    · exact absurd (congrArg (fun q => q.2.1.lock t x) he) hsame
    · -- A call that begins has noted nothing.
      obtain ⟨_, _, htaken, _⟩ := takesBack_of_ran (m.step (.request r)) hran hbefore hafter
      cases htaken
  | wake n =>
    obtain rfl : n = name := Option.some.inj hcaller
    refine ⟨rfl, ?_⟩
    cases hc : m.service.calls.get? n with
    | none =>
      have heq := Service.resume_of_get?_eq_none hc m.now
      exact absurd (congrArg (fun q => q.2.1.lock t x) heq) hsame
    | some c =>
      rcases Service.resume_cases h.service hc m.now with heq | ⟨b₁, b', hran⟩
      · exact absurd (congrArg (fun q => q.2.1.lock t x) heq) hsame
      · obtain ⟨ht, hp, hx, hu⟩ := takesBack_of_ran (m.step (.wake n)) hran hbefore hafter
        exact ⟨c, hc, hp, ht, hx, hu⟩
  | _ => cases hcaller

/-- An ownership ends because its user unlocks the resource, or anybody does
if grants are shared, or because a call takes its grant back. -/
theorem ceases_to_own (h : m.Sound) (hbefore : m.IsOwner t x u)
    (hafter : ¬ (m.step e).IsOwner t x u) :
    e.Frees t x u ∨ (m.service.IsShared t ∧ e.Unlocks t x) ∨
      ∃ name, e = .wake name ∧ m.TakesBack name t x u := by
  have hlock := hbefore
  obtain ⟨b, hb, hu⟩ := hlock
  -- For single owners this is known; grants that are shared end by unlocks of anybody.
  cases hmulti : b.allowMulti with
  | false =>
    rcases lost h ⟨b, hb, hmulti, hu⟩ (fun ⟨b', hb', _, hu'⟩ => hafter ⟨b', hb', hu'⟩) with
      hfrees | htakes
    · exact .inl hfrees
    · exact .inr (.inr htakes)
  | true =>
    refine .inr ?_
    cases hcaller : m.caller? e with
    | some name => exact .inr ⟨name, takesBack_of_caller h hcaller hbefore hafter⟩
    | none =>
      refine .inl ⟨⟨b, hb, hmulti⟩, ?_⟩
      by_contra hnot
      exact hafter (isOwner_of_idle h hcaller hnot hbefore)

/-- A call that an event does not let run stays where it is. -/
theorem call?_step_of_ne (h : m.Sound) {name : CallId} (hother : m.caller? e ≠ some name) :
    (m.step e).service.calls.get? name = m.service.calls.get? name := by
  cases step_cases h e with
  | steady hs => rw [hs.calls_eq]
  | declared d hd => rw [hd.calls_eq]
  | ran hruns hran =>
    rw [hran.call? name, if_neg]
    exact fun heq => hother (heq ▸ hruns.caller?_eq)

/-- Every call under way has been begun by a request that was not refused. -/
theorem begun_at {es : List Event} {n : Nat} {name : CallId} {c : Call}
    (hc : (after es n).service.calls.get? name = some c) :
    ∃ j r users, j < n ∧ es[j]? = some (.request r) ∧ name = (after es j).nextCall ∧
      (∃ b, (after es j).service.resolve r.resourceType r.party = .ok (b, users)) ∧
      (Service.callOf r users (after es j).now).Onward c := by
  induction n generalizing c with
  | zero => cases hc
  | succ n ih =>
    cases he : es[n]? with
    | none =>
      rw [after_of_end he] at hc
      obtain ⟨j, r, users, hj, hrest⟩ := ih hc
      exact ⟨j, r, users, Nat.lt_succ_of_lt hj, hrest⟩
    | some e =>
      rw [after_succ he] at hc
      rcases call_origin (sound_after es n) hc with
        ⟨c₀, hc₀, honward⟩ | ⟨r, users, rfl, hname, hresolve, honward⟩
      · obtain ⟨j, r, users, hj, hr, hname, hresolve, hbegun⟩ := ih hc₀
        exact ⟨j, r, users, Nat.lt_succ_of_lt hj, hr, hname, hresolve, hbegun.trans honward⟩
      · exact ⟨n, r, users, Nat.lt_succ_self n, he, hname, hresolve, honward⟩

end Moment

end Backplane.Lock
