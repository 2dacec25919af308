import Backplane.Proofs.Access.Storage

/-!
# `Backplane.Proofs.Access.Effect`: what an event does to stored clients

Of the many things that can happen to an access service, each does one of a
few things to the clients that it stores: it looks a client up, stores a new
one, takes one out, ends a session, or purges. `Service.effect` says which.
The main statements:

* `slot?_step`: the entry of every client id after an event, with the end of
  its lifetime.
* `Effect.origin`: an entry that is there afterwards was there before, or the
  event stored it.
* `stored_of_effect`: who is stored is made for an arrival that found nobody.
* `touches_iff`, `slot?_of_touches`: which events use a client, by what they
  give back, and that its lifetime starts anew.
* `frame_step`: what is around the clients after an event.
* `sorted_after`, `clock_mono`: whole histories.
-/

set_option autoImplicit false

namespace Backplane.Access

namespace Service

variable {s s' : Service} {k : String} {r : ClientRef} {c : Client}

/-! ### What an event does -/

/-- What an event does to the clients that are stored. -/
inductive Effect where
  | nothing
  /-- A live client's lifetime starts anew, and an expired client is taken
  out. -/
  | lookUp (clientId : String)
  | store (clientId : String) (r : ClientRef)
  | remove (clientId : String)
  | endSession (session : String)
  | purge

/-- The effect of an event. An arrival that is given a client from before looks
it up. -/
def effect (s : Service) (e : Event) : Effect :=
  match e.plain? with
  | some (.arrive clientId a) =>
    match (s.arrive clientId a).1 with
    | .error _ => .nothing
    | .ok r =>
      match s.record? r with
      | some c => .lookUp c.clientId
      | none => .store clientId r
  | some (.look clientId) => .lookUp clientId
  | some (.present address token) =>
    match s.decryptToken address token with
    | .error _ => .nothing
    | .ok claims => .lookUp claims.clientId
  | some (.remove clientId) => .remove clientId
  | some (.logout session) => .endSession session
  | some .purge => .purge
  | _ => .nothing

/-- The entry of a client id after an effect. -/
def Effect.slot? (x : Effect) (s : Service) (k : String) : Option (Cache.Entry ClientRef) :=
  match x with
  | nothing => s.clients.slot? k
  | lookUp k' =>
    if k = k' then (s.clients.slot? k).bind fun e => e.renew? s.clients.ttl s.clock
    else s.clients.slot? k
  | store k' r =>
    if k = k' then some ⟨r, Cache.deadline s.clients.ttl s.clock⟩ else s.clients.slot? k
  | remove k' => if k = k' then none else s.clients.slot? k
  | endSession session =>
    (s.clients.slot? k).filter fun e => !s.holds (fun c => c.session == some session) e.value
  | purge => (s.clients.slot? k).filter fun e => e.isLive s.clock

/-- The stored clients of a service are in key order, each under its own client
id. -/
structure Sorted (s : Service) : Prop where
  ascending : s.clients.table.Ascending
  filed : s.Filed

/-- A look-up in the cache is one of these effects. -/
theorem slot?_get (s : Service) (clientId k : String) :
    (s.clients.get clientId s.clock).2.slot? k = (Effect.lookUp clientId).slot? s k := by
  rw [Cache.slot?_get]
  show _ = if k = clientId then _ else _
  by_cases hk : k = clientId
  · simp [hk]
  · simp [hk]

theorem Sorted.clientId_eq (hs : s.Sorted) {e : Cache.Entry ClientRef}
    (hentry : s.clients.slot? k = some e) (hr : s.record? e.value = some c) : c.clientId = k := by
  obtain ⟨c', hc', hid⟩ := hs.filed k e.value (Cache.holds_of_slot? hentry)
  rw [hr] at hc'
  cases hc'
  exact hid

theorem slot?_arrive (hs : s.Sorted) (clientId : String) (a : Arrival) (k : String) :
    (s.arrive clientId a).2.clients.slot? k
      = (s.effect (.arrive clientId a)).slot? s k := by
  have hadmits := arrive_admits hs.ascending clientId a
  have heffect : s.effect (.arrive clientId a) = match (s.arrive clientId a).1 with
    | .error _ => .nothing
    | .ok r =>
      match s.record? r with
      | some c => .lookUp c.clientId
      | none => .store clientId r := rfl
  rw [heffect]
  -- Whether there is a record already tells a client that was found from a new one.
  generalize s.arrive clientId a = outcome at hadmits
  cases hadmits with
  | refused _ _ => rfl
  | @found _ _ _ k' e c _ hentry hlive hrecord _ =>
    simp only [hrecord, Effect.slot?, hs.clientId_eq hentry hrecord]
    rw [Cache.slot?_refresh]
    split
    · rename_i hk
      rw [hk, hentry]
      simp [Cache.Entry.renew?, hlive]
    · rfl
  | stored _ _ hissues hentry _ _ =>
    simp only [record?_length]
    exact hentry k

/-- The entry of every client id after an event. -/
theorem slot?_step (hs : s.Sorted) (e : Event) (k : String) :
    (s.step e).clients.slot? k = (s.effect e).slot? s k := by
  rw [clients_step]
  unfold effect
  cases e.plain? with
  | none => rfl
  | some e =>
    cases e with
    | arrive clientId a => exact slot?_arrive hs clientId a k
    | look clientId => exact slot?_get s clientId k
    | present address token =>
      simp only
      cases s.decryptToken address token with
      | error e => rfl
      | ok claims => exact slot?_get s claims.clientId k
    | remove clientId => exact Cache.slot?_erase s.clients clientId k
    | logout session => exact Cache.slot?_takeEntries hs.ascending _ k
    | purge =>
      simp only
      rw [Cache.slot?_takeEntries hs.ascending]
      simp [Effect.slot?]
    | _ => rfl

theorem ascending_step (hasc : s.clients.table.Ascending) (e : Event) :
    (s.step e).clients.table.Ascending := by
  have hget : ∀ clientId, (s.clients.get clientId s.clock).2.table.Ascending :=
    fun clientId => (Cache.drops_get hasc clientId s.clock).ascending
  rw [clients_step]
  cases e.plain? with
  | none => exact hasc
  | some e =>
    cases e with
    | arrive clientId a =>
      have hadmits := arrive_admits hasc clientId a
      simp only
      generalize s.arrive clientId a = outcome at hadmits
      cases hadmits with
      | refused _ _ => exact hasc
      | found _ _ _ _ _ => exact hasc.adjust _ _
      | stored _ _ _ _ hasc' _ => exact hasc'
    | look clientId => exact hget clientId
    | present address token =>
      simp only
      cases s.decryptToken address token with
      | error e => exact hasc
      | ok claims => exact hget claims.clientId
    | remove clientId => exact hasc.erase clientId
    | logout session => exact hasc.filter _
    | purge => exact hasc.filter _
    | _ => exact hasc

theorem Sorted.step (hs : s.Sorted) (e : Event) : (s.step e).Sorted :=
  ⟨ascending_step hs.ascending e, filed_step hs.filed e⟩

/-- Where an entry comes from that is there after an effect. -/
inductive Effect.Origin (x : Effect) (s : Service) (k : String) (e' : Cache.Entry ClientRef) :
    Prop where
  | kept (h : s.clients.slot? k = some e')
  | renewed {e : Cache.Entry ClientRef} (hentry : s.clients.slot? k = some e)
      (hlive : e.isLive s.clock = true) (hlookUp : x = .lookUp k)
      (h : e' = ⟨e.value, Cache.deadline s.clients.ttl s.clock⟩)
  | stored (r : ClientRef) (hstore : x = .store k r)
      (h : e' = ⟨r, Cache.deadline s.clients.ttl s.clock⟩)

theorem Effect.origin {x : Effect} {e' : Cache.Entry ClientRef}
    (h : x.slot? s k = some e') : x.Origin s k e' := by
  cases x with
  | nothing => exact .kept h
  | lookUp k' =>
    simp only [slot?] at h
    split at h
    · rename_i hk
      obtain ⟨e, hentry, hrenew⟩ := Option.bind_eq_some_iff.mp h
      obtain ⟨hlive, heq⟩ := Cache.renew?_eq_some.mp hrenew
      exact .renewed hentry hlive (by rw [hk]) heq
    · exact .kept h
  | store k' r =>
    simp only [slot?] at h
    split at h
    · rename_i hk
      exact .stored r (by rw [hk]) (Option.some.inj h).symm
    · exact .kept h
  | remove k' =>
    simp only [slot?] at h
    split at h
    · cases h
    · exact .kept h
  | endSession session => exact .kept (Option.filter_eq_some_iff.mp h).1
  | purge => exact .kept (Option.filter_eq_some_iff.mp h).1

/-- A client is stored for an arrival that is the same as no live client. -/
theorem stored_of_effect (hasc : s.clients.table.Ascending) {e : Event}
    (h : s.effect e = .store k r) : ∃ a m session user, e = .arrive k a ∧
      s.identify a = .ok (m, session, user) ∧ (s.arrive k a).1 = .ok r ∧
      s.Issues k session user r (s.step e) ∧ (m ≠ .clientId → ∀ k e,
        s.clients.slot? k = some e → e.isLive s.clock = true →
          s.holds (m.test session user) e.value = false) := by
  unfold effect at h
  split at h
  · rename_i clientId a hplain
    obtain rfl := (Event.eq_of_plain? hplain).resolve_right (by simp)
    have hadmits := arrive_admits hasc clientId a
    show ∃ a' m session user, _ ∧ _ ∧ _ ∧ s.Issues k session user r (s.arrive clientId a).2 ∧ _
    cases hresult : s.arrive clientId a with
    | mk result s' =>
      rw [hresult] at hadmits h
      cases hadmits with
      | refused _ _ => cases h
      | found _ _ _ hrecord _ =>
        simp only [hrecord] at h
        cases h
      | stored hidentify hnone hissues _ _ _ =>
        simp only [record?_length] at h
        cases h
        exact ⟨a, _, _, _, rfl, hidentify, by rw [hresult], hissues, hnone⟩
  · cases h
  · split at h <;> cases h
  · cases h
  · cases h
  · cases h
  · cases h

/-! ### Clients that are used -/

/-- The call of an event gives back a client. -/
def Gives (s : Service) (e : Event) (r : ClientRef) : Prop :=
  match e with
  | .arrive clientId a => (s.arrive clientId a).1 = .ok r
  | .look clientId => (s.getClient clientId).1 = .ok r
  | .present address token => (s.clientOfToken address token).1 = .ok r
  | _ => False

/-- An event makes a client or finds it live. A bearer token does so if its
client is looked up, whether or not it is given back then. -/
def Touches (s : Service) (e : Event) (r : ClientRef) : Prop :=
  match e with
  | .arrive clientId a => (s.arrive clientId a).1 = .ok r
  | .look clientId => (s.getClient clientId).1 = .ok r
  | .present address token => ∃ claims, s.decryptToken address token = .ok claims ∧
      (s.getClient claims.clientId).1 = .ok r
  | _ => False

/-- Whoever is given back has been touched, and has a record. -/
theorem Gives.touches {e : Event} (h : s.Gives e r) : s.Touches e r := by
  cases e with
  | arrive clientId a => exact h
  | look clientId => exact h
  | present address token =>
    replace h : (s.clientOfToken address token).1 = .ok r := h
    unfold clientOfToken at h
    cases hdecrypt : s.decryptToken address token with
    | error e =>
      rw [hdecrypt] at h
      cases h
    | ok claims =>
      rw [hdecrypt] at h
      refine ⟨claims, hdecrypt, ?_⟩
      rcases hget : s.getClient claims.clientId with ⟨e | r', s'⟩
      · simp only [hget] at h
        cases h
      · simp only [hget] at h
        split at h
        · cases h
        · split at h
          · cases h
            rfl
          · cases h
  | _ => exact h.elim

/-- A touch is a look-up of a live client, or stores one. -/
theorem touches_iff (hs : s.Sorted) (e : Event) (r : ClientRef) : s.Touches e r ↔
    (∃ k e₀, s.effect e = .lookUp k ∧ s.clients.slot? k = some e₀ ∧
      e₀.isLive s.clock = true ∧ e₀.value = r) ∨ ∃ k, s.effect e = .store k r := by
  -- Both calls that look clients up come to this.
  have hlook (k' : String) : (s.getClient k').1 = .ok r ↔
      (∃ k e₀, Effect.lookUp k' = .lookUp k ∧ s.clients.slot? k = some e₀ ∧
        e₀.isLive s.clock = true ∧ e₀.value = r) ∨ ∃ k, Effect.lookUp k' = .store k r := by
    rw [ok_getClient_iff]
    simp
  cases e with
  | arrive clientId a =>
    have hadmits := arrive_admits hs.ascending clientId a
    simp only [Touches, effect, Event.plain?]
    generalize s.arrive clientId a = outcome at hadmits
    cases hadmits with
    | refused _ _ => simp
    | @found _ _ _ k e c _ hentry hlive hrecord _ =>
      simp only [hrecord, hs.clientId_eq hentry hrecord]
      simp [hentry, hlive]
    | stored _ _ _ _ _ _ => simp
  | look clientId => exact hlook clientId
  | present address token =>
    simp only [Touches, effect, Event.plain?]
    cases s.decryptToken address token with
    | error e => simp
    | ok claims => simpa using hlook claims.clientId
  | message m =>
    rcases Event.ofMessage?_cases m with ⟨h, _⟩ | ⟨l, h, _⟩ | ⟨session, h, _⟩ | ⟨h, _⟩
    all_goals simp [Touches, effect, Event.plain?, h]
  | _ => simp [Touches, effect, Event.plain?]

/-- A client that has just been touched is stored, with a new lifetime. -/
theorem slot?_of_touches (hs : s.Sorted) {e : Event} (h : s.Touches e r) :
    ∃ c, (s.step e).record? r = some c ∧ (s.step e).clients.slot? c.clientId
      = some ⟨r, Cache.deadline s.clients.ttl s.clock⟩ := by
  rcases (touches_iff hs e r).mp h with ⟨k, e₀, heffect, hentry, hlive, rfl⟩ | ⟨k, heffect⟩
  · obtain ⟨c, hc, hid⟩ := hs.filed k e₀.value (Cache.holds_of_slot? hentry)
    obtain ⟨c', hc', hsame⟩ := record_after s e hc
    refine ⟨c', hc', ?_⟩
    rw [slot?_step hs, heffect, hsame.clientId_eq, hid]
    simp [Effect.slot?, hentry, Cache.Entry.renew?, hlive]
  · obtain ⟨_, _, _, _, _, _, _, hissues, _⟩ := stored_of_effect hs.ascending heffect
    obtain ⟨c, hc, hid, _⟩ := hissues.made
    refine ⟨c, hc, ?_⟩
    rw [slot?_step hs, heffect, hid]
    simp [Effect.slot?]

/-- What is around the clients after an event. -/
theorem frame_step (hasc : s.clients.table.Ascending) (e : Event) :
    (s.step e).frame = match e.plain? with
      | some (.issueCsrf session random) =>
        { s.frame with csrf := (s.csrf.insert (csrfToken random) session s.clock).2 }
      | some (.checkCsrf token session consume) =>
        { s.frame with csrf := (s.checkCsrf token session consume).2.csrf }
      | some .purge => { s.frame with csrf := (s.csrf.purge s.clock).2 }
      | some (.logon session l) => { s.frame with sessions := s.sessions.insert session l }
      | some (.logout session) => { s.frame with sessions := s.sessions.erase session }
      | some (.setClock clock) => { s.frame with clock }
      | some (.setWallClock time) => { s.frame with wallClock := time }
      | some (.setDirectory directory) => { s.frame with directory }
      | _ => s.frame := by
  cases e with
  | arrive clientId a => exact frame_arrive hasc clientId a
  | look clientId => exact frame_getClient s clientId
  | present address token => exact frame_clientOfToken s address token
  | remove clientId => exact frame_removeClient s clientId
  | purge => exact frame_purge s
  | logout session => exact frame_registerLogout s session
  | message m =>
    rw [step_message]
    rcases Event.ofMessage?_cases m with ⟨h, _⟩ | ⟨l, h, _⟩ | ⟨session, h, _⟩ | ⟨h, _⟩
    all_goals simp only [Event.plain?, h]
    · rfl
    · rfl
    · exact frame_registerLogout s session
    · exact frame_purge s
  | checkCsrf token session consume =>
    exact congrArg frame (checkCsrf_snd s token session consume)
  | setAttribute r name a =>
    show (s.setAttribute r name a).2.frame = _
    unfold setAttribute
    split <;> rfl
  | removeAttribute r name =>
    show (s.removeAttribute r name).2.frame = _
    unfold removeAttribute
    split <;> rfl
  | clearAttributes r =>
    show (s.clearAttributes r).frame = _
    unfold clearAttributes
    split <;> rfl
  | issueCsrf | logon | takeNews | setClock | setWallClock | setDirectory => rfl

theorem mem_liveClients (hs : s.Sorted) : r ∈ s.liveClients ↔
    ∃ k e, s.clients.slot? k = some e ∧ e.isLive s.clock = true ∧ e.value = r :=
  Cache.mem_live_iff hs.ascending

theorem settings_step (hasc : s.clients.table.Ascending) (e : Event) :
    (s.step e).settings = s.settings := by
  show (s.step e).frame.settings = _
  rw [frame_step hasc]
  split <;> rfl

theorem ttl_step (hasc : s.clients.table.Ascending) (e : Event) :
    (s.step e).clients.ttl = s.clients.ttl := by
  show (s.step e).frame.clients.ttl = _
  rw [frame_step hasc]
  split <;> rfl

/-- Only a change of the clock changes the clock. -/
theorem clock_step (hasc : s.clients.table.Ascending) (e : Event) :
    (s.step e).clock = match e.plain? with
      | some (.setClock clock) => clock
      | _ => s.clock := by
  show (s.step e).frame.clock = _
  rw [frame_step hasc]
  cases e.plain? with
  | none => rfl
  | some e => cases e <;> rfl

/-- Only a change of the directory changes the directory. -/
theorem directory_step (hasc : s.clients.table.Ascending) (e : Event) :
    (s.step e).directory = match e.plain? with
      | some (.setDirectory directory) => directory
      | _ => s.directory := by
  show (s.step e).frame.directory = _
  rw [frame_step hasc]
  cases e.plain? with
  | none => rfl
  | some e => cases e <;> rfl

/-- A purge leaves the live clients. -/
theorem liveClients_purge (hasc : s.clients.table.Ascending) {e : Event}
    (hpurge : e.plain? = some .purge) : (s.step e).liveClients = s.liveClients := by
  have hclients := clients_step s e
  have hclock := clock_step hasc e
  rw [hpurge] at hclients hclock
  unfold liveClients
  rw [hclients, hclock]
  exact Cache.live_purge s.clients s.clock

end Service

/-! ### Histories -/

namespace History

variable {h : History} {i j n : Nat}

/-- The clock never runs back. -/
def ClockForward (h : History) : Prop :=
  ∀ (n : Nat) (clock : UInt64), h.events[n]? = some (.setClock clock) → (h.after n).clock ≤ clock

theorem sorted_after (h : History) (n : Nat) : (h.after n).Sorted :=
  after_induction ⟨Table.ascending_empty, filed_after h 0⟩ (fun _ e _ hs => hs.step e) n

theorem ascending_after (h : History) (n : Nat) : (h.after n).clients.table.Ascending :=
  (sorted_after h n).ascending

theorem settings_after (h : History) (n : Nat) : (h.after n).settings = h.settings :=
  after_induction (motive := fun s => s.settings = h.settings) rfl
    (fun n e _ ih => (Service.settings_step (ascending_after h n) e).trans ih) n

/-- The lifetime of clients is the one of the settings, cut to 64 bits. -/
theorem ttl_after (h : History) (n : Nat) :
    (h.after n).clients.ttl = .ofNat h.settings.tokenTtl :=
  after_induction (motive := fun s => s.clients.ttl = .ofNat h.settings.tokenTtl) rfl
    (fun n e _ ih => (Service.ttl_step (ascending_after h n) e).trans ih) n

theorem clock_le_succ (hclock : h.ClockForward) (n : Nat) :
    (h.after n).clock ≤ (h.after (n + 1)).clock := by
  cases he : h.events[n]? with
  | none =>
    rw [after_of_end he]
    exact UInt64.le_refl _
  | some e =>
    rw [after_succ he, Service.clock_step (ascending_after h n)]
    split
    · rename_i clock hplain
      obtain rfl := (Event.eq_of_plain? hplain).resolve_right (by simp)
      exact hclock n clock he
    · exact UInt64.le_refl _

theorem clock_mono (hclock : h.ClockForward) (hle : i ≤ j) :
    (h.after i).clock ≤ (h.after j).clock := by
  induction j, hle using Nat.le_induction with
  | base => exact UInt64.le_refl _
  | succ j _ ih => exact UInt64.le_trans ih (clock_le_succ hclock j)

end History

end Backplane.Access
