import Backplane.Proofs.Access.Effect

/-!
# `Backplane.Proofs.Access.Identity`: one live client for each identity

A logon by a session or by a user's name takes the live client of that
session or name, if there is one. So there should never be two of them,
although expired clients stay stored and are not seen by the search. What
carries this is that no lifetime of an expired client starts anew: who is live
after an event was live before, or is new (`live_before`). The main statements:

* `Directory.InMemory`: directories that answer for every user.
* `OneLive.step`: an event keeps at most one live client of a kind, if it
  stores a client of that kind only when no other is live.
* `one_live_client`: in every history there is at most one live client for
  each session and for each user's name, and a logon takes it.
* `search_in_any_order`: so the order in which a search visits the clients does
  not matter.

A name can have several live clients all the same: one for each session of its
user, and those of the anonymous user. A logon by this name takes one of them, as
its search comes upon it, and all that is said of such a logon holds of each.
-/

set_option autoImplicit false

namespace Backplane.Access

/-! ### Directories that answer -/

/-- The directories that accounts are put into and taken out of, and whose
look-ups always answer. -/
inductive Directory.InMemory : Directory → Prop where
  | empty : InMemory {}
  | add {d : Directory} (h : InMemory d) (user : User) (password : String) (rights : Rights) :
      InMemory (d.add user password rights)
  | remove {d : Directory} (h : InMemory d) (name : String) : InMemory (d.remove name).2

namespace Directory.InMemory

variable {d : Directory} {name password : String} {user : User}

theorem outages_eq (h : d.InMemory) : d.outages = {} := by
  induction h with
  | empty => rfl
  | add _ _ _ _ ih => exact ih
  | remove _ _ ih => exact ih

/-- Every account is kept under the name of its user. -/
theorem name_of_account (h : d.InMemory) {account : Account}
    (haccount : d.accounts.get? name = some account) : account.user.name = name := by
  induction h with
  | empty => cases haccount
  | @add d _ user password rights ih =>
    replace haccount : (d.accounts.insert user.name
      ⟨user, Access.passwordHash password, rights⟩).get? name = some account := haccount
    rw [Table.get?_insert] at haccount
    split at haccount
    · rename_i hname
      cases haccount
      exact hname.symm
    · exact ih haccount
  | @remove d _ gone ih =>
    replace haccount : (d.accounts.erase gone).get? name = some account := haccount
    rw [Table.get?_erase] at haccount
    split at haccount
    · cases haccount
    · exact ih haccount

theorem rights_ok (h : d.InMemory) (user : User) : ∃ rights, d.rights user = .ok rights := by
  unfold Directory.rights Directory.ask
  rw [h.outages_eq]
  exact ⟨_, rfl⟩

theorem name_of_byName (h : d.InMemory) (huser : d.byName name = .ok (some user)) :
    user.name = name := by
  unfold Directory.byName Directory.ask at huser
  rw [h.outages_eq] at huser
  obtain ⟨account, haccount, rfl⟩ := Option.map_eq_some_iff.mp (Except.ok.inj huser)
  exact h.name_of_account haccount

end Directory.InMemory

namespace Service

variable {s : Service} {k : String} {r : ClientRef} {m : Matching} {session : Option String}
  {user : User}

/-- Credentials stand for the user of the account of that name, provided that the
password is the account's or the alternate one. -/
theorem userOfCredentials_eq (hdirectory : s.directory.InMemory) (name password : String) :
    s.userOfCredentials name password = match s.directory.accounts.get? name with
      | none => .error (.authenticationFailed name)
      | some account =>
        if account.passwordHash = passwordHash password ∨ s.acceptsMagic name password = true
        then .ok account.user else .error (.authenticationFailed name) := by
  unfold userOfCredentials Directory.login Directory.byName Directory.ask
  rw [hdirectory.outages_eq]
  cases s.directory.accounts.get? name with
  | none => cases hmagic : s.acceptsMagic name password <;> rfl
  | some account =>
    by_cases hpassword : account.passwordHash = passwordHash password
    · simp only [Option.bind_some, hpassword, true_or, if_true]
      rfl
    · simp only [Option.bind_some, hpassword, false_or, if_false]
      cases s.acceptsMagic name password <;> rfl

/-- Who logs on by name and password is the user of that name. -/
theorem name_of_credentials (hdirectory : s.directory.InMemory) {name password : String}
    (h : s.identify (.credentials name password) = .ok (m, session, user)) : user.name = name := by
  simp only [identify, userOfCredentials_eq hdirectory] at h
  cases haccount : s.directory.accounts.get? name with
  | none =>
    rw [haccount] at h
    cases h
  | some account =>
    rw [haccount] at h
    simp only at h
    split at h
    · cases h
    · rename_i heq
      split at heq
      · cases heq
        cases h
        exact hdirectory.name_of_account haccount
      · cases heq

/-- Who arrives anonymously is the anonymous user. -/
theorem name_of_anonymous (hdirectory : s.directory.InMemory)
    (h : s.identify .anonymous = .ok (m, session, user)) :
    s.settings.anonymousUser = some user.name := by
  simp only [identify] at h
  split at h
  · cases h
  · rename_i name hname
    split at h
    · cases h
    · cases h
    · rename_i hbyName
      cases h
      rw [hname, hdirectory.name_of_byName hbyName]

/-! ### Live clients of one kind -/

/-- Whether a test is about what never changes in a client. -/
def Lasting (p : Client → Bool) : Prop := ∀ c c', c.Same c' → p c' = p c

/-- At most one client that passes a test is live. -/
def OneLive (s : Service) (p : Client → Bool) : Prop :=
  ∀ k e k' e', s.clients.slot? k = some e → s.clients.slot? k' = some e' →
    e.isLive s.clock = true → e'.isLive s.clock = true → s.holds p e.value = true →
    s.holds p e'.value = true → k = k'

/-- Some client that passes a test is live. -/
def SomeLive (s : Service) (p : Client → Bool) : Prop :=
  ∃ k e, s.clients.slot? k = some e ∧ e.isLive s.clock = true ∧ s.holds p e.value = true

/-- A client of before passes a lasting test afterwards only if it did before. -/
theorem holds_of_step {p : Client → Bool} (hp : Lasting p) {e : Event}
    (hr : (s.record? r).isSome = true) (h : (s.step e).holds p r = true) :
    s.holds p r = true := by
  obtain ⟨c, hc⟩ := Option.isSome_iff_exists.mp hr
  obtain ⟨c', hc', hsame⟩ := record_after s e hc
  obtain ⟨c'', hc'', htest⟩ := (holds_iff _ _ _).mp h
  rw [hc'] at hc''
  cases hc''
  exact (holds_iff _ _ _).mpr ⟨c, hc, by rw [← hp c c' hsame, htest]⟩

/-- A client that is live after an event was live before, or is stored by the
event. -/
theorem live_before (hs : s.Sorted) {e : Event} (hclock : s.clock ≤ (s.step e).clock)
    {p : Client → Bool} (hp : Lasting p) {e' : Cache.Entry ClientRef}
    (hentry : (s.step e).clients.slot? k = some e')
    (hlive : e'.isLive (s.step e).clock = true) (htest : (s.step e).holds p e'.value = true) :
    (∃ e₀, s.clients.slot? k = some e₀ ∧ e₀.isLive s.clock = true ∧ s.holds p e₀.value = true) ∨
      ∃ r, s.effect e = .store k r ∧ (s.step e).holds p r = true := by
  have hrecord : ∀ {e₀ : Cache.Entry ClientRef}, s.clients.slot? k = some e₀ →
      (s.record? e₀.value).isSome = true := fun h₀ => by
    obtain ⟨c, hc, _⟩ := hs.filed k _ (Cache.holds_of_slot? h₀)
    rw [hc]
    rfl
  rw [slot?_step hs] at hentry
  cases Effect.origin hentry with
  | kept h₀ =>
    exact .inl ⟨e', h₀, Cache.isLive_mono hclock hlive, holds_of_step hp (hrecord h₀) htest⟩
  | @renewed e₀ h₀ hlive₀ _ heq =>
    -- Only the lifetime of a live client starts anew.
    subst heq
    exact .inl ⟨e₀, h₀, hlive₀, holds_of_step hp (hrecord h₀) htest⟩
  | stored r hstore heq =>
    subst heq
    exact .inr ⟨r, hstore, htest⟩

/-- There is still at most one live client of a kind after an event, provided
that the event stores a client of this kind only if none is live. -/
theorem OneLive.step {p : Client → Bool} (hone : s.OneLive p) (hp : Lasting p) (hs : s.Sorted)
    {e : Event} (hclock : s.clock ≤ (s.step e).clock)
    (hfirst : ∀ k r, s.effect e = .store k r → (s.step e).holds p r = true → ¬ s.SomeLive p) :
    (s.step e).OneLive p := by
  intro k₁ e₁ k₂ e₂ hentry₁ hentry₂ hlive₁ hlive₂ htest₁ htest₂
  -- Two old clients are one, no new one joins an old one, and only one is new.
  rcases live_before hs hclock hp hentry₁ hlive₁ htest₁ with
    ⟨e₁', hentry₁', hlive₁', htest₁'⟩ | ⟨r₁, hstore₁, hnew₁⟩
  · rcases live_before hs hclock hp hentry₂ hlive₂ htest₂ with
      ⟨e₂', hentry₂', hlive₂', htest₂'⟩ | ⟨r₂, hstore₂, hnew₂⟩
    · exact hone k₁ e₁' k₂ e₂' hentry₁' hentry₂' hlive₁' hlive₂' htest₁' htest₂'
    · exact absurd ⟨k₁, e₁', hentry₁', hlive₁', htest₁'⟩ (hfirst k₂ r₂ hstore₂ hnew₂)
  · rcases live_before hs hclock hp hentry₂ hlive₂ htest₂ with
      ⟨e₂', hentry₂', hlive₂', htest₂'⟩ | ⟨r₂, hstore₂, _⟩
    · exact absurd ⟨k₂, e₂', hentry₂', hlive₂', htest₂'⟩ (hfirst k₁ r₁ hstore₁ hnew₁)
    · rw [hstore₁] at hstore₂
      exact (Effect.store.inj hstore₂).1

/-- The test for the clients of a session. -/
def ofSession (session : String) (c : Client) : Bool := c.session == some session

/-- The test for the clients of a user's name that have no session. -/
def ofName (name : String) (c : Client) : Bool := c.session.isNone && c.user.name == name

theorem lasting_ofSession (session : String) : Lasting (ofSession session) :=
  fun _ _ hsame => by rw [ofSession, hsame.session_eq, ofSession]

theorem lasting_ofName (name : String) : Lasting (ofName name) :=
  fun _ _ hsame => by rw [ofName, hsame.session_eq, hsame.user_eq, ofName]

/-- A client of a kind is stored for an arrival that is the same as no live
client. -/
theorem stored_of_holds (hs : s.Sorted) {e : Event} {p : Client → Bool}
    (hstore : s.effect e = .store k r) (hnew : (s.step e).holds p r = true) :
    ∃ a m session user c, s.identify a = .ok (m, session, user) ∧ p c = true ∧
      c.session = session ∧ c.user = user ∧ (m ≠ .clientId → ∀ k e,
        s.clients.slot? k = some e → e.isLive s.clock = true →
          s.holds (m.test session user) e.value = false) := by
  obtain ⟨a, m, session, user, rfl, hidentify, _, hissues, hnone⟩ :=
    stored_of_effect hs.ascending hstore
  obtain ⟨c, hc, _, hsession, huser⟩ := hissues.made
  obtain ⟨c', hc', htest⟩ := (holds_iff _ _ _).mp hnew
  rw [hc] at hc'
  cases hc'
  exact ⟨a, m, session, user, c, hidentify, htest, hsession, huser, hnone⟩

/-- A client of a session is stored only if no other client of the session is
live. -/
theorem not_someLive_ofSession (hs : s.Sorted) {e : Event} (session : String)
    (hstore : s.effect e = .store k r) (hnew : (s.step e).holds (ofSession session) r = true) :
    ¬ s.SomeLive (ofSession session) := by
  obtain ⟨a, m, _, user, c, hidentify, htest, rfl, _, hnone⟩ := stored_of_holds hs hstore hnew
  replace htest : c.session = some session := eq_of_beq htest
  rw [htest] at hidentify hnone
  rintro ⟨k', e', hentry, hlive, hholds⟩
  rcases identify_cases hidentify with ⟨_, _, hnil⟩ | ⟨_, _, _, hnil⟩ | ⟨_, _, _, rfl, _⟩
  · cases hnil
  · cases hnil
  · have hno := hnone (by decide) k' e' hentry hlive
    rw [show s.holds (ofSession session) e'.value = false from hno] at hholds
    cases hholds

/-- A client of a user's name without a session is stored only if no other one
is live, unless it is the anonymous user. -/
theorem not_someLive_ofName (hs : s.Sorted) (hdirectory : s.directory.InMemory) {e : Event}
    {name : String} (hname : s.settings.anonymousUser ≠ some name)
    (hstore : s.effect e = .store k r) (hnew : (s.step e).holds (ofName name) r = true) :
    ¬ s.SomeLive (ofName name) := by
  obtain ⟨a, m, _, _, c, hidentify, htest, rfl, rfl, hnone⟩ := stored_of_holds hs hstore hnew
  rw [ofName, Bool.and_eq_true, beq_iff_eq] at htest
  obtain ⟨hnil, rfl⟩ := htest
  rintro ⟨k', e', hentry, hlive, hholds⟩
  rcases identify_cases hidentify with ⟨rfl, _⟩ | ⟨_, _, rfl, _⟩ | ⟨_, _, _, _, hsession, _⟩
  · exact hname (name_of_anonymous hdirectory hidentify)
  · -- Whoever is logged on by name takes every live client of the name.
    obtain ⟨c', hc', htest'⟩ := (holds_iff _ _ _).mp hholds
    rw [ofName, Bool.and_eq_true] at htest'
    have hholds' : s.holds (Matching.test .userName c.session c.user) e'.value = true :=
      (holds_iff _ _ _).mpr ⟨c', hc', htest'.2⟩
    rw [hnone (by decide) k' e' hentry hlive] at hholds'
    cases hholds'
  · rw [hsession] at hnil
    cases hnil

/-! ### Logons that take a live client -/

/-- The result of a call is a live client that passes a test. Its lifetime
starts anew and the time of its use is noted, and nothing else changes. -/
def Reuses (s : Service) (p : Client → Bool) (outcome : Except Error ClientRef × Service) :
    Prop :=
  ∃ k e c, s.clients.slot? k = some e ∧ e.isLive s.clock = true ∧
    s.record? e.value = some c ∧ p c = true ∧ outcome.1 = .ok e.value ∧
    (∀ k', outcome.2.clients.slot? k' = if k' = k
      then some ⟨e.value, Cache.deadline s.clients.ttl s.clock⟩ else s.clients.slot? k') ∧
    outcome.2.clients.table.keys = s.clients.table.keys ∧
    outcome.2 = { s with
      records := s.records.set e.value (c.touch s.now)
      clients := outcome.2.clients }

/-- A logon by a session or by a user's name takes the live client that it is
the same as. -/
theorem reuses_of_someLive (hs : s.Sorted) (hdirectory : s.directory.InMemory)
    {a : Arrival} (clientId : String) (ha : a ≠ .anonymous)
    (hidentify : s.identify a = .ok (m, session, user)) (hlive : s.SomeLive (m.test session user)) :
    s.Reuses (m.test session user) (s.arrive clientId a) := by
  have hadmits := arrive_admits hs.ascending clientId a
  generalize s.arrive clientId a = outcome at hadmits
  cases hadmits with
  | refused e hno =>
    obtain ⟨rights, hrights⟩ := hdirectory.rights_ok user
    rw [hno m session user hidentify] at hrights
    cases hrights
  | @found m' session' user' k e c hidentify' hentry hlive hrecord htest =>
    rw [hidentify] at hidentify'
    cases hidentify'
    refine ⟨k, e, c, hentry, hlive, hrecord, htest, rfl, fun k' => ?_, ?_, rfl⟩
    · rw [Cache.slot?_refresh, hentry]
      rfl
    · exact Cache.keys_refresh s.clients k s.clock
  | stored hidentify' hnone _ _ _ _ =>
    rw [hidentify] at hidentify'
    cases hidentify'
    obtain ⟨k, e, hentry, hlive, htest⟩ := hlive
    have hm : m ≠ .clientId := by
      rcases identify_cases hidentify with ⟨h, _⟩ | ⟨_, _, rfl, _⟩ | ⟨_, _, _, rfl, _⟩
      · exact absurd h ha
      · decide
      · decide
    rw [hnone hm k e hentry hlive] at htest
    cases htest

theorem someLive_iff (hs : s.Sorted) (p : Client → Bool) :
    s.SomeLive p ↔ ∃ r ∈ s.liveClients, s.holds p r = true := by
  constructor
  · rintro ⟨k, e, hentry, hlive, htest⟩
    exact ⟨e.value, (mem_liveClients hs).mpr ⟨k, e, hentry, hlive, rfl⟩, htest⟩
  · rintro ⟨r, hr, htest⟩
    obtain ⟨k, e, hentry, hlive, rfl⟩ := (mem_liveClients hs).mp hr
    exact ⟨k, e, hentry, hlive, htest⟩

theorem OneLive.length_le {p : Client → Bool} (h : s.OneLive p) (hs : s.Sorted) :
    (s.liveClients.filter (s.holds p)).length ≤ 1 :=
  Cache.length_filter_live_le_one hs.ascending (s.holds p) h

end Service

/-! ### Histories -/

namespace History

variable {h : History}

/-- All directories that the service is given answer for every user. -/
def InMemory (h : History) : Prop :=
  h.directory.InMemory ∧
    ∀ (n : Nat) (d : Directory), h.events[n]? = some (.setDirectory d) → d.InMemory

theorem inMemory_after (hmemory : h.InMemory) (n : Nat) : (h.after n).directory.InMemory := by
  refine after_induction (motive := fun s => s.directory.InMemory) hmemory.1 (fun n e he ih => ?_) n
  rw [Service.directory_step (ascending_after h n)]
  split
  · rename_i d hplain
    obtain rfl := (Event.eq_of_plain? hplain).resolve_right (by simp)
    exact hmemory.2 n d he
  · exact ih

/-- There is at most one live client of a kind at every moment, provided that
such a client is stored only if none is live. -/
theorem oneLive_after (hclock : h.ClockForward) {p : Client → Bool} (hp : Service.Lasting p)
    (hfirst : ∀ n e k r, h.events[n]? = some e → (h.after n).effect e = .store k r →
      ((h.after n).step e).holds p r = true → ¬ (h.after n).SomeLive p) (n : Nat) :
    (h.after n).OneLive p := by
  refine after_induction (motive := fun s => s.OneLive p) ?_ (fun n e he hone => ?_) n
  · intro k e k' e' hentry
    cases hentry
  · have hle := clock_le_succ hclock n
    rw [after_succ he] at hle
    exact hone.step hp (sorted_after h n) hle fun k r => hfirst n e k r he

theorem oneLive_ofSession (hclock : h.ClockForward) (session : String) (n : Nat) :
    (h.after n).OneLive (Service.ofSession session) :=
  oneLive_after hclock (Service.lasting_ofSession session)
    (fun i _ _ _ _ => Service.not_someLive_ofSession (sorted_after h i) session) n

theorem oneLive_ofName (hclock : h.ClockForward) (hmemory : h.InMemory) {name : String}
    (hname : h.settings.anonymousUser ≠ some name) (n : Nat) :
    (h.after n).OneLive (Service.ofName name) := by
  refine oneLive_after hclock (Service.lasting_ofName name) (fun i e k r _ => ?_) n
  refine Service.not_someLive_ofName (sorted_after h i) (inMemory_after hmemory i) ?_
  rwa [settings_after]

/-- In every history in which the clock never runs back and directories answer,
at every moment: at most one client of a session is live, and at most one
client of a user's name without a session, unless it is the anonymous user's
name. If somebody logs on by a session or by a user's name and is the same as a
live client, the result is that client. Its lifetime starts anew and its last
access is noted, and everything else stays as it was. -/
theorem one_live_client (hclock : h.ClockForward) (hmemory : h.InMemory) (n : Nat) :
    (∀ session, ((h.after n).clientsOfSession session).length ≤ 1) ∧
    (∀ name, h.settings.anonymousUser ≠ some name →
      ((h.after n).liveClients.filter
        ((h.after n).holds fun c => c.session.isNone && c.user.name == name)).length ≤ 1) ∧
    (∀ name password m session user,
      (h.after n).identify (.credentials name password) = .ok (m, session, user) →
        user.name = name) ∧
    ∀ clientId a m session user, a ≠ .anonymous →
      (h.after n).identify a = .ok (m, session, user) →
      (∃ r ∈ (h.after n).liveClients, (h.after n).holds (m.test session user) r = true) →
      (h.after n).Reuses (m.test session user) ((h.after n).arrive clientId a) := by
  have hsorted := sorted_after h
  have hdirectory := inMemory_after hmemory
  refine ⟨fun session => ?_, fun name hname => ?_, fun name password m session user =>
    Service.name_of_credentials (hdirectory n),
    fun clientId a m session user ha hidentify hlive => ?_⟩
  · exact (oneLive_ofSession hclock session n).length_le (hsorted n)
  · exact (oneLive_ofName hclock hmemory hname n).length_le (hsorted n)
  · exact Service.reuses_of_someLive (hsorted n) (hdirectory n) clientId ha hidentify
      ((Service.someLive_iff (hsorted n) _).mpr hlive)

/-- At every moment of such a history, a search by a session finds the same client
in whatever order it visits them. So does a search by a user's name, unless some
client of that name has a session or it is the anonymous user's name. -/
theorem search_in_any_order (hclock : h.ClockForward) (hmemory : h.InMemory) (n : Nat)
    {found : Option (String × Cache.Entry ClientRef)} :
    (∀ session, (h.after n).clients.Finds (h.after n).clock
        ((h.after n).holds fun c => c.session == some session) found →
      found = (h.after n).clients.findEntry? (h.after n).clock
        ((h.after n).holds fun c => c.session == some session)) ∧
    ∀ name, h.settings.anonymousUser ≠ some name →
      (∀ r ∈ (h.after n).liveClients, (h.after n).holds (fun c => c.user.name == name) r = true →
        (h.after n).holds (fun c => c.session.isNone) r = true) →
      (h.after n).clients.Finds (h.after n).clock
        ((h.after n).holds fun c => c.user.name == name) found →
      found = (h.after n).clients.findEntry? (h.after n).clock
        ((h.after n).holds fun c => c.user.name == name) := by
  have hsorted := sorted_after h n
  refine ⟨fun session hfinds => hfinds.eq_findEntry? hsorted.ascending ?_,
    fun name hname hplain hfinds => hfinds.eq_findEntry? hsorted.ascending ?_⟩
  · exact oneLive_ofSession hclock session n
  · -- Here all clients of the name are clients of the name without a session.
    have hofName : ∀ k e, (h.after n).clients.slot? k = some e →
        e.isLive (h.after n).clock = true →
        (h.after n).holds (fun c => c.user.name == name) e.value = true →
        (h.after n).holds (Service.ofName name) e.value = true := by
      intro k e hentry hlive htest
      have hnil := hplain e.value
        ((Service.mem_liveClients hsorted).mpr ⟨k, e, hentry, hlive, rfl⟩) htest
      obtain ⟨c, hc, hcname⟩ := (Service.holds_iff _ _ _).mp htest
      obtain ⟨c', hc', hcnil⟩ := (Service.holds_iff _ _ _).mp hnil
      rw [hc] at hc'
      cases hc'
      exact (Service.holds_iff _ _ _).mpr ⟨c, hc, Bool.and_eq_true_iff.mpr ⟨hcnil, hcname⟩⟩
    intro k e k' e' hentry hentry' hlive hlive' htest htest'
    exact oneLive_ofName hclock hmemory hname n k e k' e' hentry hentry' hlive hlive'
      (hofName k e hentry hlive htest) (hofName k' e' hentry' hlive' htest')

/-- A client of a session is live when the session logs on again under the
client id of another one. -/
def returningHistory : History where
  settings := { tokenTtl := 100 }
  directory := (({} : Directory).add { id := 7, name := "mario" } "pizza" {}).add
    { id := 9, name := "luigi" } "pasta" {}
  keys := ⟨[]⟩
  clock := 0
  events :=
    [.logon "s" ⟨7, "mario"⟩,
     .arrive "a" (.session "s"),
     .arrive "b" (.user { id := 9, name := "luigi" }),
     .setClock 99]

theorem one_live_client_returning :
    returningHistory.ClockForward ∧ returningHistory.InMemory ∧
      (returningHistory.after 4).liveClients = [0, 1] ∧
      (returningHistory.after 4).Reuses (fun c => c.session == some "s")
        ((returningHistory.after 4).arrive "b" (.session "s")) := by
  have hclock : returningHistory.ClockForward := by
    intro n clock he
    match n with
    | 0 | 1 | 2 => cases he
    | 3 =>
      cases he
      decide
    | n + 4 => cases he
  have hmemory : returningHistory.InMemory := by
    refine ⟨(Directory.InMemory.empty.add _ _ _).add _ _ _, fun n d he => ?_⟩
    match n with
    | 0 | 1 | 2 | 3 | n + 4 => cases he
  obtain ⟨_, _, _, hreuses⟩ := one_live_client hclock hmemory 4
  refine ⟨hclock, hmemory, rfl, ?_⟩
  exact hreuses "b" (.session "s") .session (some "s") { id := 7, name := "mario" } (by simp) rfl
    ⟨0, by decide, rfl⟩

end History

end Backplane.Access
