import Backplane.Proofs.Lock.Operation

/-!
# `Backplane.Proofs.Lock.History`: histories of a lock service

A history is a list of events: declarations of types, requests, wake-ups
of calls, unlocks, collections and the passing of time, in any order.
`after es n` is the service after the first `n` of them. The main
statements:

* `step_cases`: every event changes the service in one of three ways.
* `sound_after`: the service is in order at every moment.
* `moved_step`: every event changes each lock by moves.
* `gained`, `lost`: who becomes an owner on a type for single owners, and
  whose ownership ends, by which event.
* `call_at`, `noted_before`: a call under way has been the same call since
  it began, and what it has noted are its own grants.

A call can be woken at any time here, and late: at its deadline or any
time after it. So whatever holds in all histories holds for every order in
which a scheduler can run the calls.
-/

set_option autoImplicit false

namespace Backplane.Lock

/-- A lock service with a clock. -/
structure Moment where
  now : Nat := 0
  /-- The name of the next call. -/
  nextCall : CallId := 0
  service : Service := {}
deriving Repr, DecidableEq

/-- What can happen to a lock service. -/
inductive Event where
  | declare (d : TypeDecl)
  | request (r : Request)
  /-- A call that waits is let run. -/
  | wake (name : CallId)
  | unlock (resourceType : String) (id : Int) (p : Service.Party)
  | unlockAll (resourceType : String) (ids : List Int) (p : Service.Party)
  | collect
  /-- Time passes. -/
  | elapse (ms : Nat)
deriving Repr, DecidableEq

/-- The users whose ownership an event is meant to end. -/
def Event.Frees : Event → String → Int → Int → Prop
  | .unlock resourceType id p, t, x, u => t = resourceType ∧ x = id ∧ p = .one u
  | .unlockAll resourceType ids p, t, x, u => t = resourceType ∧ x ∈ ids ∧ p = .one u
  | _, _, _, _ => False

namespace Moment

/-- The service after an event. -/
def step (m : Moment) : Event → Moment
  | .declare d => { m with service := (m.service.createResource d).toOption.getD m.service }
  | .request r =>
    { m with
      nextCall := m.nextCall + 1
      service := (m.service.begin m.nextCall r m.now).2.1 }
  | .wake name => { m with service := (m.service.resume name m.now).2.1 }
  | .unlock t id p => { m with service := (m.service.unlock t id p).2.1 }
  | .unlockAll t ids p => { m with service := (m.service.unlockAll t ids p).2.1 }
  | .collect => { m with service := m.service.collectGarbage.2 }
  | .elapse ms => { m with now := m.now + ms }

/-- The service after the first `n` events of a history. -/
def after (es : List Event) (n : Nat) : Moment := (es.take n).foldl step {}

theorem after_succ {es : List Event} {n : Nat} {e : Event} (he : es[n]? = some e) :
    after es (n + 1) = (after es n).step e := by
  unfold after
  rw [List.take_add_one, he, Option.toList_some, List.foldl_append]
  rfl

theorem after_of_end {es : List Event} {n : Nat} (he : es[n]? = none) :
    after es (n + 1) = after es n := by
  unfold after
  rw [List.take_add_one, he, Option.toList_none, List.append_nil]

/-- What every event keeps holds at every moment, if it holds at first. -/
theorem after_induction {es : List Event} {motive : Moment → Prop} (first : motive {})
    (next : ∀ m e, motive m → motive (m.step e)) (n : Nat) : motive (after es n) := by
  induction n with
  | zero => exact first
  | succ n ih =>
    cases he : es[n]? with
    | none => rwa [after_of_end he]
    | some e =>
      rw [after_succ he]
      exact next _ e ih

/-! ### The three ways -/

/-- The calls that an event lets run, and where they stand afterwards. -/
inductive Runs (m : Moment) (name : CallId) (c : Call) (p : Progress) : Event → Prop where
  | begins (r : Request) (users : Users) (hname : name = m.nextCall)
      (hcall : c = Service.callOf r users m.now)
      (hp : (m.service.begin m.nextCall r m.now).1 = .ok p)
      (hresolve : ∃ b, m.service.resolve r.resourceType r.party = .ok (b, users)) :
      Runs m name c p (.request r)
  | resumes (hcall : m.service.calls.get? name = some c)
      (hp : (m.service.resume name m.now).1 = p) : Runs m name c p (.wake name)

/-- How an event changes a service. -/
inductive Change (m : Moment) (e : Event) (s' : Service) : Prop where
  | steady (h : Service.Steady e.Frees m.service s')
  | declared (d : TypeDecl) (h : Service.Declared d m.service s')
  | ran {name : CallId} {b b' : Block} {c : Call} {p : Progress} (hruns : Runs m name c p e)
      (h : Service.Ran name m.now m.service b c p s' b')

/-- A service in order whose names for calls are not used up. -/
structure Sound (m : Moment) : Prop where
  service : m.service.Sound
  name_lt : ∀ {n c}, m.service.calls.get? n = some c → n < m.nextCall

theorem Sound.nextCall_free {m : Moment} (h : m.Sound) :
    m.service.calls.get? m.nextCall = none := by
  cases hc : m.service.calls.get? m.nextCall with
  | none => rfl
  | some c => exact absurd (h.name_lt hc) (Nat.lt_irrefl _)

/-- Every event changes a service in one of three ways. -/
theorem step_cases {m : Moment} (h : m.Sound) (e : Event) : Change m e (m.step e).service := by
  cases e with
  | declare d =>
    show Change m _ ((m.service.createResource d).toOption.getD m.service)
    cases hd : m.service.createResource d with
    | error _ => exact .steady (Service.Steady.refl _ _)
    | ok s' =>
      rcases Service.createResource_cases hd with rfl | hdeclared
      · exact .steady (Service.Steady.refl _ _)
      · exact .declared d hdeclared
  | request r =>
    show Change m _ (m.service.begin m.nextCall r m.now).2.1
    rcases Service.begin_cases h.service h.nextCall_free r m.now with
      ⟨e, he⟩ | ⟨users, b, p, b', hresolve, hp, hran⟩
    · rw [he]
      exact .steady (Service.Steady.refl _ _)
    · exact .ran (.begins r users rfl rfl hp ⟨b, hresolve⟩) hran
  | wake name =>
    show Change m _ (m.service.resume name m.now).2.1
    cases hc : m.service.calls.get? name with
    | none =>
      rw [Service.resume_of_get?_eq_none hc]
      exact .steady (Service.Steady.refl _ _)
    | some c =>
      rcases Service.resume_cases h.service hc m.now with heq | ⟨b, b', hran⟩
      · rw [heq]
        exact .steady (Service.Steady.refl _ _)
      · exact .ran (.resumes hc rfl) hran
  | unlock t id p => exact .steady (Service.steady_unlock h.service t id p)
  | unlockAll t ids p => exact .steady (Service.steady_unlockAll h.service t ids p)
  | collect => exact .steady (Service.steady_collectGarbage h.service)
  | elapse ms => exact .steady (Service.Steady.refl _ _)

theorem nextCall_le_step (m : Moment) (e : Event) : m.nextCall ≤ (m.step e).nextCall := by
  cases e with
  | request r => exact Nat.le_succ _
  | declare d => exact Nat.le_refl _
  | wake name => exact Nat.le_refl _
  | unlock t id p => exact Nat.le_refl _
  | unlockAll t ids p => exact Nat.le_refl _
  | collect => exact Nat.le_refl _
  | elapse ms => exact Nat.le_refl _

/-- A call that has run had a name before, or gets the next one. -/
theorem Runs.name_lt {m : Moment} (h : m.Sound) {name : CallId} {c : Call} {p : Progress}
    {e : Event} (hr : Runs m name c p e) : name < (m.step e).nextCall := by
  cases hr with
  | begins r users hname _ _ =>
    rw [hname]
    exact Nat.lt_succ_self _
  | resumes hcall _ => exact h.name_lt hcall

/-- Every event keeps a service in order. -/
theorem sound_step {m : Moment} (h : m.Sound) (e : Event) : (m.step e).Sound := by
  have hle := nextCall_le_step m e
  cases step_cases h e with
  | steady hs =>
    refine ⟨h.service.steady hs, fun {n c} hc => ?_⟩
    rw [hs.calls_eq] at hc
    exact Nat.lt_of_lt_of_le (h.name_lt hc) hle
  | declared d hd =>
    refine ⟨h.service.declared hd, fun {n c} hc => ?_⟩
    rw [hd.calls_eq] at hc
    exact Nat.lt_of_lt_of_le (h.name_lt hc) hle
  | ran hruns hran =>
    refine ⟨h.service.ran hran, fun {n c} hc => ?_⟩
    rw [hran.call? n] at hc
    split at hc
    · rename_i hn
      rw [hn]
      exact hruns.name_lt h
    · exact Nat.lt_of_lt_of_le (h.name_lt hc) hle

/-- The service is in order at every moment. -/
theorem sound_after (es : List Event) (n : Nat) : (after es n).Sound :=
  after_induction (motive := Sound) ⟨Service.sound_empty, fun h => nomatch h⟩
    (fun _ e h => sound_step h e) n

/-! ### Moves -/

variable {m : Moment} {t : String} {x u : Int} {e : Event}

/-- A call under way gives up if it is let run, and takes the grant of a
resource back that it had noted. -/
structure RollsBack (m : Moment) (name : CallId) (c : Call) (b : Block) (y : Int) : Prop where
  call : m.service.calls.get? name = some c
  givesUp : (m.service.resume name m.now).1 = .done false
  block : m.service.blocks.get? c.resourceType = some b
  noted : y ∈ c.taken

/-- The locks of a type after an event have been moved, or the type is
new. The rollbacks among the moves are allowed if one is allowed wherever
one of its users is an owner, and, should the event let a call give up,
also on each id whose grant the call had noted. -/
theorem moved_step {revocable : Item → Users → Prop} (h : m.Sound)
    (howned : ∀ (i : Item) (users : Users), i.isOwnedByAny users = true → revocable i users)
    (hnoted : ∀ {name c b y}, e = .wake name → m.RollsBack name c b y → c.resourceType = t →
      revocable (b.item y) c.users)
    {b' : Block} (hb' : (m.step e).service.blocks.get? t = some b') :
    (∃ b, m.service.blocks.get? t = some b ∧ b.Moved revocable b') ∨
      (m.service.blocks.get? t = none ∧ b'.items = ∅) := by
  cases step_cases h e with
  | steady hs =>
    obtain ⟨b, hb, hsteady⟩ := hs.of_get? hb'
    exact .inl ⟨b, hb, hsteady.same, fun y => (hsteady.item y).moves _⟩
  | declared d hd =>
    rw [hd.get? t] at hb'
    split at hb'
    · rename_i ht
      cases hb'
      exact .inr ⟨ht ▸ hd.absent, rfl⟩
    · exact .inl ⟨b', hb', Block.SameType.refl b', fun _ => .refl⟩
  | @ran name b b₁ c p hruns hran =>
    rw [hran.get? t] at hb'
    split at hb'
    · rename_i ht
      cases hb'
      have hb : m.service.blocks.get? t = some b := ht ▸ hran.found
      have hback : p = .done false → ∀ y ∈ c.taken, revocable (b.item y) c.users := by
        intro hp y hy
        cases hruns with
        | begins r users _ hcall _ _ =>
          -- A call that begins has noted nothing.
          rw [hcall] at hy
          cases hy
        | resumes hcall hres => exact hnoted rfl ⟨hcall, hres.trans hp, hran.found, hy⟩ ht.symm
      exact .inl ⟨b, hb, hran.run.sameType,
        hran.run.moves hran.ready (fun i => howned i c.users) hback⟩
    · exact .inl ⟨b', hb', Block.SameType.refl b', fun _ => .refl⟩

/-! ### Owners -/

/-- On a type for single owners, the user `u` is an owner of the resource
`x`. -/
def Owns (m : Moment) (t : String) (x u : Int) : Prop :=
  ∃ b, m.service.blocks.get? t = some b ∧ b.allowMulti = false ∧ u ∈ (b.item x).owners

/-- A call under way takes its grants back, and with them one of `x` for
`u`. -/
def TakesBack (m : Moment) (name : CallId) (t : String) (x u : Int) : Prop :=
  ∃ c, m.service.calls.get? name = some c ∧ (m.service.resume name m.now).1 = .done false ∧
    c.resourceType = t ∧ x ∈ c.taken ∧ u ∈ c.users

/-- Nobody becomes an owner but by a call that runs; a call with a deadline
that goes on notes the grant. -/
theorem gained (h : m.Sound) (hbefore : ¬ m.Owns t x u) (hafter : (m.step e).Owns t x u) :
    ∃ name c p, Runs m name c p e ∧ c.resourceType = t ∧ x ∈ c.ids ∧ u ∈ c.users ∧
      (m.step e).service.calls.get? name = p.call? ∧
      ∀ c', p = .waiting c' → c'.resourceType = t ∧ u ∈ c'.users ∧
        (c'.deadline.isSome = true → x ∈ c'.taken) := by
  obtain ⟨b', hb', hsingle, hu⟩ := hafter
  cases step_cases h e with
  | steady hs =>
    obtain ⟨b, hb, hsteady⟩ := hs.of_get? hb'
    rw [hsteady.same.allowMulti_eq] at hsingle
    exact absurd ⟨b, hb, hsingle, (hsteady.item x).owners hsingle u hu⟩ hbefore
  | declared d hd =>
    rw [hd.get? t] at hb'
    split at hb'
    · -- A new lock has no owner.
      cases hb'
      cases hu
    · exact absurd ⟨b', hb', hsingle, hu⟩ hbefore
  | @ran name b b'' c p hruns hran =>
    rw [hran.get? t] at hb'
    split at hb'
    · rename_i ht
      cases hb'
      rw [hran.moved.same.allowMulti_eq] at hsingle
      -- The user is an owner anew, so the run has granted the id.
      have hnot : u ∉ (b.item x).owners := fun hown =>
        hbefore ⟨b, ht ▸ hran.found, hsingle, hown⟩
      have hcall : (m.step e).service.calls.get? name = p.call? := by
        rw [hran.call? name, if_pos rfl]
      rcases hran.run.owners hran.ready with
        ⟨granted, hgranted, howners, _, hnotes⟩ | ⟨_, _, howners⟩
      · obtain ⟨hx, hmem⟩ := ((howners x u).mp hu).resolve_left hnot
        refine ⟨name, c, p, hruns, ht.symm, (hgranted x hx).1, hmem, hcall, fun c' hp => ?_⟩
        obtain ⟨htype, husers, hdeadline, _⟩ := hran.run.call hp
        refine ⟨htype.trans ht.symm, husers ▸ hmem, fun hsome => ?_⟩
        rw [hnotes c' hp (hdeadline ▸ hsome)]
        exact List.mem_append_right _ hx
      · exact absurd ((howners x u).mp hu).1 hnot
    · exact absurd ⟨b', hb', hsingle, hu⟩ hbefore

/-- Nobody ceases to be an owner but by unlocking, or because a call takes
its grant back. -/
theorem lost (h : m.Sound) (hbefore : m.Owns t x u) (hafter : ¬ (m.step e).Owns t x u) :
    e.Frees t x u ∨ ∃ name, e = .wake name ∧ m.TakesBack name t x u := by
  obtain ⟨b, hb, hsingle, hu⟩ := hbefore
  cases step_cases h e with
  | steady hs =>
    obtain ⟨b', hb', hsteady⟩ := hs.kept hb
    rcases (hsteady.item x).freed hsingle u hu with hu' | hfrees
    · rw [← hsteady.same.allowMulti_eq] at hsingle
      exact absurd ⟨b', hb', hsingle, hu'⟩ hafter
    · exact .inl hfrees
  | declared d hd => exact absurd ⟨b, hd.kept hb, hsingle, hu⟩ hafter
  | @ran name b₁ b' c p hruns hran =>
    by_cases ht : t = c.resourceType
    · have hb₁ : b = b₁ := by
        have hfound := hran.found
        rw [← ht, hb] at hfound
        exact Option.some.inj hfound
      subst hb₁
      have hb' : (m.step e).service.blocks.get? t = some b' := by rw [hran.get? t, if_pos ht]
      have hlost : u ∉ (b'.item x).owners := fun hu' =>
        hafter ⟨b', hb', hran.moved.same.allowMulti_eq.trans hsingle, hu'⟩
      rcases hran.run.owners hran.ready with ⟨granted, _, howners, _⟩ | ⟨hp, _, howners⟩
      · exact absurd ((howners x u).mpr (.inl hu)) hlost
      · -- The call gives up, and has noted the id before.
        have htaken : x ∈ c.taken ∧ u ∈ c.users := by
          by_contra hnot
          exact hlost ((howners x u).mpr ⟨hu, hnot⟩)
        cases hruns with
        | begins r users _ hcall _ =>
          -- A call that begins has noted nothing.
          rw [hcall] at htaken
          cases htaken.1
        | resumes hcall hres =>
          exact .inr ⟨name, rfl, c, hcall, hres.trans hp, ht.symm, htaken.1, htaken.2⟩
    · refine absurd ⟨b, ?_, hsingle, hu⟩ hafter
      rw [hran.get? t, if_neg ht, hb]

/-- A call that takes a grant back ends the ownership, whoever's grant it
was. -/
theorem TakesBack.not_owns (h : m.Sound) {name : CallId} (htakes : m.TakesBack name t x u) :
    ¬ (m.step (.wake name)).Owns t x u := by
  obtain ⟨c, hc, hp, ht, hx, hu⟩ := htakes
  rintro ⟨b', hb', _, hown⟩
  change (m.service.resume name m.now).2.1.blocks.get? t = some b' at hb'
  rcases Service.resume_cases h.service hc m.now with heq | ⟨b, b₁, hran⟩
  · rw [heq] at hp
    cases hp
  · rw [hran.get? t, if_pos ht.symm] at hb'
    cases hb'
    rcases hran.run.owners hran.ready with ⟨_, _, _, hdone, _⟩ | ⟨_, _, howners⟩
    · exact hdone hp
    · exact ((howners x u).mp hown).2 ⟨hx, hu⟩

/-- A call that gives up has a deadline. -/
theorem isSome_deadline_of_gaveUp (h : m.Sound) {name : CallId} {c : Call}
    (hc : m.service.calls.get? name = some c)
    (hp : (m.service.resume name m.now).1 = .done false) : c.deadline.isSome = true := by
  rcases Service.resume_cases h.service hc m.now with heq | ⟨b, b', hran⟩
  · rw [heq] at hp
    cases hp
  · rcases hran.run.owners hran.ready with ⟨_, _, _, hdone, _⟩ | ⟨_, hdeadline, _⟩
    · exact absurd hp hdone
    · exact hdeadline

/-! ### Types and calls over time -/

/-- A type stays as it was declared. -/
theorem kept_type (h : m.Sound) {b : Block} (hb : m.service.blocks.get? t = some b) (e : Event) :
    ∃ b', (m.step e).service.blocks.get? t = some b' ∧ b'.allowMulti = b.allowMulti := by
  cases step_cases h e with
  | steady hs =>
    obtain ⟨b', hb', hsteady⟩ := hs.kept hb
    exact ⟨b', hb', hsteady.same.allowMulti_eq⟩
  | declared d hd => exact ⟨b, hd.kept hb, rfl⟩
  | ran hruns hran => exact hran.kept hb

/-- The type is not declared for shared grants. -/
def Single (m : Moment) (t : String) : Prop :=
  ∀ b, m.service.blocks.get? t = some b → b.allowMulti = false

theorem Single.before (h : m.Sound) (hs : (m.step e).Single t) : m.Single t := by
  intro b hb
  obtain ⟨b', hb', hmulti⟩ := kept_type h hb e
  rw [← hmulti]
  exact hs b' hb'

/-- A type for single owners has been one ever since it was declared. -/
theorem single_before {es : List Event} {k n : Nat} (hle : k ≤ n) (hs : (after es n).Single t) :
    (after es k).Single t := by
  induction n, hle using Nat.le_induction with
  | base => exact hs
  | succ n _ ih =>
    cases he : es[n]? with
    | none =>
      rw [after_of_end he] at hs
      exact ih hs
    | some e =>
      rw [after_succ he] at hs
      exact ih (hs.before (sound_after es n))

theorem Owns.single (h : m.Owns t x u) : m.Single t := by
  obtain ⟨b, hb, hsingle, _⟩ := h
  intro b' hb'
  rw [hb] at hb'
  cases hb'
  exact hsingle

end Moment

/-- A call further on. -/
structure Call.Continues (c c' : Call) : Prop where
  resourceType_eq : c'.resourceType = c.resourceType
  users_eq : c'.users = c.users
  deadline_eq : c'.deadline = c.deadline
  taken_prefix : c.taken <+: c'.taken

theorem Call.Continues.refl (c : Call) : c.Continues c := ⟨rfl, rfl, rfl, List.prefix_rfl⟩

/-- A call further on, with what it has still to lock. -/
structure Call.Onward (c c' : Call) : Prop extends c.Continues c' where
  ids_ne_nil : c'.ids ≠ []
  sublist : (c'.taken ++ c'.ids).Sublist (c.taken ++ c.ids)
  taken_eq : c.deadline = none → c'.taken = c.taken

theorem Call.Continues.trans {c₁ c₂ c₃ : Call} (h : c₁.Continues c₂) (h' : c₂.Continues c₃) :
    c₁.Continues c₃ :=
  ⟨h'.resourceType_eq.trans h.resourceType_eq, h'.users_eq.trans h.users_eq,
    h'.deadline_eq.trans h.deadline_eq, h.taken_prefix.trans h'.taken_prefix⟩

namespace Moment

variable {m : Moment} {t : String} {x u : Int} {e : Event}

/-- Where a call under way comes from: it was under way before, or the event
is the request that has begun it. -/
theorem call_origin (h : m.Sound) {name : CallId} {c' : Call}
    (hc' : (m.step e).service.calls.get? name = some c') :
    (∃ c, m.service.calls.get? name = some c ∧ c.Onward c') ∨
      ∃ r users, e = .request r ∧ name = m.nextCall ∧
        (∃ b, m.service.resolve r.resourceType r.party = .ok (b, users)) ∧
        (Service.callOf r users m.now).Onward c' := by
  have hsame : m.service.calls.get? name = some c' →
      ∃ c, m.service.calls.get? name = some c ∧ c.Onward c' := fun hc =>
    ⟨c', hc, .refl c', (h.service.call hc).ids_ne_nil, .refl _, fun _ => rfl⟩
  cases step_cases h e with
  | steady hs => exact .inl (hsame (hs.calls_eq ▸ hc'))
  | declared d hd => exact .inl (hsame (hd.calls_eq ▸ hc'))
  | @ran n b b' c p hruns hran =>
    rw [hran.call? name] at hc'
    split at hc'
    · rename_i hn
      subst hn
      cases p with
      | waiting c'' =>
        cases hc'
        obtain ⟨htype, husers, hdeadline, hids, hsub, hprefix, htaken⟩ := hran.run.call rfl
        have honward : c.Onward c' := ⟨⟨htype, husers, hdeadline, hprefix⟩, hids, hsub, htaken⟩
        cases hruns with
        | begins r users hnext hcall _ hresolve =>
          exact .inr ⟨r, users, rfl, hnext, hresolve, hcall ▸ honward⟩
        | resumes hcall _ => exact .inl ⟨c, hcall, honward⟩
      | done granted => cases hc'
    · exact .inl (hsame hc')

/-- A call that is under way after an event, under a name that was taken
before, was under way before. -/
theorem call_before_step (h : m.Sound) {name : CallId} (hname : name < m.nextCall) {c' : Call}
    (hc' : (m.step e).service.calls.get? name = some c') :
    ∃ c, m.service.calls.get? name = some c ∧ c.Continues c' := by
  rcases call_origin h hc' with ⟨c, hc, honward⟩ | ⟨_, _, _, hnext, _⟩
  · exact ⟨c, hc, honward.toContinues⟩
  · exact absurd hname (hnext ▸ Nat.lt_irrefl _)

theorem nextCall_mono (es : List Event) {k j : Nat} (hle : k ≤ j) :
    (after es k).nextCall ≤ (after es j).nextCall := by
  induction j, hle using Nat.le_induction with
  | base => exact Nat.le_refl _
  | succ j _ ih =>
    cases he : es[j]? with
    | none => rwa [after_of_end he]
    | some e =>
      rw [after_succ he]
      exact ih.trans (nextCall_le_step _ e)

/-- A call under way has been under way ever since its name was given. -/
theorem call_at {es : List Event} {k j : Nat} (hle : k ≤ j) {name : CallId}
    (hname : name < (after es k).nextCall) {c : Call}
    (hc : (after es j).service.calls.get? name = some c) :
    ∃ c₀, (after es k).service.calls.get? name = some c₀ ∧ c₀.Continues c := by
  induction j, hle using Nat.le_induction generalizing c with
  | base => exact ⟨c, hc, .refl c⟩
  | succ j hle ih =>
    cases he : es[j]? with
    | none =>
      rw [after_of_end he] at hc
      exact ih hc
    | some e =>
      rw [after_succ he] at hc
      have hlt := Nat.lt_of_lt_of_le hname (nextCall_mono es hle)
      obtain ⟨c₁, hc₁, hlater⟩ := call_before_step (sound_after es j) hlt hc
      obtain ⟨c₀, hc₀, hearlier⟩ := ih hc₁
      exact ⟨c₀, hc₀, hearlier.trans hlater⟩

/-- The call that an event lets run. -/
def caller? (m : Moment) : Event → Option CallId
  | .request _ => some m.nextCall
  | .wake name => some name
  | _ => none

theorem Runs.caller?_eq {name : CallId} {c : Call} {p : Progress} (h : Runs m name c p e) :
    m.caller? e = some name := by
  cases h with
  | begins r users hname _ _ => exact congrArg some hname.symm
  | resumes _ _ => rfl

/-- What a call has noted after an event it had noted before, or the event
has let it run and made its users owners. -/
theorem noted_before (h : m.Sound) {name : CallId} {c' : Call}
    (hc' : (m.step e).service.calls.get? name = some c') (hx : x ∈ c'.taken) (hu : u ∈ c'.users)
    (hsingle : (m.step e).Single c'.resourceType) :
    (∃ c, m.service.calls.get? name = some c ∧ x ∈ c.taken ∧ c.Continues c') ∨
      (m.caller? e = some name ∧ ¬ m.Owns c'.resourceType x u ∧
        (m.step e).Owns c'.resourceType x u) := by
  cases step_cases h e with
  | steady hs =>
    rw [hs.calls_eq] at hc'
    exact .inl ⟨c', hc', hx, .refl c'⟩
  | declared d hd =>
    rw [hd.calls_eq] at hc'
    exact .inl ⟨c', hc', hx, .refl c'⟩
  | @ran n b b' c p hruns hran =>
    rw [hran.call? name] at hc'
    split at hc'
    · rename_i hn
      cases p with
      | done granted => cases hc'
      | waiting c'' =>
        cases hc'
        obtain ⟨htype, husers, hdeadline, _, _, hprefix, hkeep⟩ := hran.run.call rfl
        -- What the call has noted before this run it had noted as a call under way.
        have hold : x ∈ c.taken → ∃ c, m.service.calls.get? name = some c ∧ x ∈ c.taken ∧
            c.Continues c' := by
          intro hmem
          cases hruns with
          | begins r users _ hcall _ =>
            rw [hcall] at hmem
            cases hmem
          | resumes hcall _ =>
            exact ⟨c, hn ▸ hcall, hmem, htype, husers, hdeadline, hprefix⟩
        rcases hran.run.owners hran.ready with ⟨granted, hgranted, howners, _, hnotes⟩ | ⟨hp, _⟩
        · cases hd : c.deadline with
          | none =>
            rw [hkeep hd] at hx
            exact .inl (hold hx)
          | some limit =>
            rw [hnotes c' rfl (by rw [hd]; rfl)] at hx
            rcases List.mem_append.mp hx with hx | hx
            · exact .inl (hold hx)
            · -- The id is one that this run has granted.
              have hb' : (m.step e).service.blocks.get? c'.resourceType = some b' := by
                rw [hran.get?, if_pos htype]
              rw [husers] at hu
              refine .inr ⟨hn ▸ hruns.caller?_eq, ?_, b', hb', hsingle b' hb',
                (howners x u).mpr (.inr ⟨hx, hu⟩)⟩
              rintro ⟨b₁, hb₁, _, hown⟩
              rw [htype, hran.found] at hb₁
              cases hb₁
              exact Item.not_mem_owners (hgranted x hx).2 hu hown
        · cases hp
    · exact .inl ⟨c', hc', hx, .refl c'⟩

end Moment

end Backplane.Lock
