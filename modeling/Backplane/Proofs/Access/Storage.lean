import Backplane.Proofs.Access.Departure
import Backplane.Proofs.Access.Expiry

/-!
# `Backplane.Proofs.Access.Storage`: the cache after each operation

`Backplane.Proofs.Access.Service` says which clients an operation can leave
stored. Here is what it does exactly to the cache, with the lifetimes, and
that it changes nothing around the clients. The main statements:

* `step_message`: a message of the bus is a plain event, or nothing.
* `frame_arrive`, `frame_getClient` and the other `frame_` theorems: what
  clients ask for changes nothing but clients and their news.
* `clients_step`: the cache after an event.
* `finds_findMatch`: what a logon finds, and what the search does to the
  cache.
* `arrive_admits`: whom an arrival is given, and which entries change.
-/

set_option autoImplicit false

namespace Backplane.Access

/-! ### Messages as events -/

/-- The event that a message asks for. -/
def Event.ofMessage? (m : Bus.Message Node.Listener) : Option Event :=
  if m.id = .userLogon then (Node.logonOf m).toOption.map fun l => .logon l.1 l.2
  else if m.id = .userLogout then (Node.sessionOf m).toOption.map .logout
  else if m.id = .idle10 then some .purge
  else none

/-- What an event asks for if messages are read. -/
def Event.plain? : Event → Option Event
  | .message m => ofMessage? m
  | e => some e

/-- The session that an event ends. -/
def Event.logsOut? (e : Event) : Option String :=
  match e.plain? with
  | some (.logout session) => some session
  | _ => none

/-- A message asks for nothing, announces a session, ends one, or purges. -/
theorem Event.ofMessage?_cases (m : Bus.Message Node.Listener) :
    (ofMessage? m = none ∧ (Event.message m).logsOn? = none) ∨
      (∃ l, ofMessage? m = some (.logon l.1 l.2) ∧ (Event.message m).logsOn? = some l) ∨
      (∃ session, ofMessage? m = some (.logout session) ∧ (Event.message m).logsOn? = none) ∨
      (ofMessage? m = some .purge ∧ (Event.message m).logsOn? = none) := by
  unfold ofMessage? logsOn?
  by_cases hon : m.id = .userLogon
  · simp only [if_pos hon]
    cases Node.logonOf m with
    | error e => exact .inl ⟨rfl, rfl⟩
    | ok l => exact .inr (.inl ⟨l, rfl, rfl⟩)
  · simp only [if_neg hon]
    by_cases hout : m.id = .userLogout
    · simp only [if_pos hout]
      cases Node.sessionOf m with
      | error e => exact .inl ⟨rfl, trivial⟩
      | ok session => exact .inr (.inr (.inl ⟨session, rfl, trivial⟩))
    · simp only [if_neg hout]
      by_cases hidle : m.id = .idle10
      · exact .inr (.inr (.inr ⟨if_pos hidle, trivial⟩))
      · exact .inl ⟨if_neg hidle, trivial⟩

/-- What is no message is read as it is, and a message is read as one of three
kinds of events. -/
theorem Event.eq_of_plain? {e e' : Event} (h : e.plain? = some e') : e = e' ∨
    (∃ session l, e' = .logon session l) ∨ (∃ session, e' = .logout session) ∨ e' = .purge := by
  cases e with
  | message m =>
    rcases ofMessage?_cases m with ⟨h', _⟩ | ⟨l, h', _⟩ | ⟨session, h', _⟩ | ⟨h', _⟩
    all_goals
      simp only [plain?, h'] at h
      cases h
    · exact .inr (.inl ⟨_, _, rfl⟩)
    · exact .inr (.inr (.inl ⟨_, rfl⟩))
    · exact .inr (.inr (.inr rfl))
  | _ => exact .inl (Option.some.inj h)

namespace Service

variable {s s' : Service} {k : String} {r : ClientRef} {c : Client}

/-- A message does what the event does that it asks for, or nothing. -/
theorem step_message (s : Service) (m : Bus.Message Node.Listener) :
    s.step (.message m) = ((Event.ofMessage? m).map s.step).getD s := by
  show s.receive m = _
  unfold receive Event.ofMessage?
  split
  · cases Node.logonOf m <;> rfl
  · split
    · cases Node.sessionOf m <;> rfl
    · split <;> rfl

/-! ### Around the clients -/

/-- The service without its clients and what they caused. -/
def frame (s : Service) : Service :=
  { s with records := [], clients := .empty s.clients.ttl, outbox := [], notices := [] }

theorem frame_discard (s : Service) (r : ClientRef) : (s.discard r).frame = s.frame := by
  unfold discard
  split <;> rfl

theorem frame_discardAll (s : Service) (rs : List ClientRef) :
    (s.discardAll rs).frame = s.frame := by
  induction rs generalizing s with
  | nil => rfl
  | cons r rest ih => exact (ih (s.discard r)).trans (frame_discard s r)

theorem frame_withClients {clients : Cache String ClientRef} (h : clients.ttl = s.clients.ttl) :
    (s.withClients clients).frame = s.frame := by
  unfold frame withClients
  simp only [h]

theorem frame_issue (s : Service) (clientId : String) (session : Option String) (user : User)
    (rights : Rights) (stale : List ClientRef) :
    (s.issue clientId session user rights stale).2.frame = s.frame :=
  frame_discardAll _ (stale ++ (s.clients.insert clientId s.records.length s.clock).1.toList)

theorem frame_getClient (s : Service) (clientId : String) :
    (s.getClient clientId).2.frame = s.frame := by
  unfold getClient
  rw [Cache.get_by_entry]
  cases s.clients.slot? clientId with
  | none => rfl
  | some e =>
    cases hlive : e.isLive s.clock with
    | true => simp only [hlive, if_true]; rfl
    | false =>
      simp only [hlive, Bool.false_eq_true, if_false]
      exact frame_discard _ e.value

theorem frame_removeClient (s : Service) (clientId : String) :
    (s.removeClient clientId).2.frame = s.frame := by
  unfold removeClient Cache.remove
  cases s.clients.table.get? clientId with
  | none => rfl
  | some e => exact frame_discard _ e.value

theorem frame_purge (s : Service) :
    s.purge.2.frame = { s.frame with csrf := (s.csrf.purge s.clock).2 } :=
  frame_discardAll _ (s.clients.purge s.clock).1

theorem frame_registerLogout (s : Service) (session : String) :
    (s.registerLogout session).2.frame
      = { s.frame with sessions := s.sessions.erase session } :=
  frame_discardAll _ (s.clients.removeWhere (s.holds fun c => c.session == some session)).1

/-! ### Clients that are looked up -/

theorem getClient_fst (s : Service) (clientId : String) :
    (s.getClient clientId).1 = match s.clients.slot? clientId with
      | none => .error (.unknownToken clientId)
      | some e => if e.isLive s.clock then .ok e.value else .error (.tokenExpired clientId) := by
  unfold getClient
  rw [Cache.get_by_entry]
  cases s.clients.slot? clientId with
  | none => rfl
  | some e => cases hlive : e.isLive s.clock <;> simp [hlive]

theorem ok_getClient_iff (s : Service) (clientId : String) (r : ClientRef) :
    (s.getClient clientId).1 = .ok r ↔
      ∃ e, s.clients.slot? clientId = some e ∧ e.isLive s.clock = true ∧ e.value = r := by
  rw [getClient_fst]
  cases s.clients.slot? clientId with
  | none => simp
  | some e => cases hlive : e.isLive s.clock <;> simp [hlive]

theorem expired_getClient_iff (s : Service) (clientId k : String) :
    (s.getClient clientId).1 = .error (.tokenExpired k) ↔
      clientId = k ∧ ∃ e, s.clients.slot? k = some e ∧ e.isLive s.clock = false := by
  rw [getClient_fst]
  constructor
  · intro h
    cases hentry : s.clients.slot? clientId with
    | none => simp [hentry] at h
    | some e =>
      cases hlive : e.isLive s.clock with
      | true => simp [hentry, hlive] at h
      | false =>
        have hk : clientId = k := by simpa [hentry, hlive] using h
        exact ⟨hk, e, hk ▸ hentry, hlive⟩
  · rintro ⟨rfl, e, hentry, hlive⟩
    simp [hentry, hlive]

theorem unknown_getClient_iff (s : Service) (clientId : String) :
    (s.getClient clientId).1 = .error (.unknownToken clientId) ↔
      s.clients.slot? clientId = none := by
  rw [getClient_fst]
  cases s.clients.slot? clientId with
  | none => simp
  | some e => cases hlive : e.isLive s.clock <;> simp [hlive]

theorem clients_getClient (s : Service) (clientId : String) :
    (s.getClient clientId).2.clients = (s.clients.get clientId s.clock).2 := by
  unfold getClient
  split <;> rename_i heq <;> rw [heq]
  · rfl
  · exact clients_discard _ _

/-- A bearer token that is refused looks nobody up, and all others look up the
client that they name. -/
theorem clientOfToken_snd (s : Service) (address token : String) :
    (s.clientOfToken address token).2 = match s.decryptToken address token with
      | .error _ => s
      | .ok claims => (s.getClient claims.clientId).2 := by
  unfold clientOfToken
  cases s.decryptToken address token with
  | error e => rfl
  | ok claims =>
    simp only
    rcases s.getClient claims.clientId with ⟨e | r, s'⟩
    · rfl
    · simp only
      split
      · rfl
      · split <;> rfl

theorem frame_clientOfToken (s : Service) (address token : String) :
    (s.clientOfToken address token).2.frame = s.frame := by
  rw [clientOfToken_snd]
  cases s.decryptToken address token with
  | error e => rfl
  | ok claims => exact frame_getClient s claims.clientId

theorem clients_removeClient (s : Service) (clientId : String) :
    (s.removeClient clientId).2.clients
      = { s.clients with table := s.clients.table.erase clientId } := by
  unfold removeClient Cache.remove
  cases s.clients.table.get? clientId with
  | none => rfl
  | some e => exact clients_discard _ e.value

theorem clients_purge (s : Service) :
    s.purge.2.clients = (s.clients.takeEntries fun e => !e.isLive s.clock).2 :=
  clients_discardAll _ (s.clients.purge s.clock).1

theorem clients_registerLogout (s : Service) (session : String) :
    (s.registerLogout session).2.clients
      = (s.clients.takeEntries fun e => s.holds (fun c => c.session == some session) e.value).2 :=
  clients_discardAll _ (s.clients.removeWhere (s.holds fun c => c.session == some session)).1

/-- A check of an anti-forgery token concerns these tokens alone. -/
theorem checkCsrf_snd (s : Service) (token session : String) (consume : Bool) :
    (s.checkCsrf token session consume).2
      = { s with csrf := (s.checkCsrf token session consume).2.csrf } := by
  unfold checkCsrf
  split
  · split <;> rfl
  · rfl

theorem clients_setAttribute (s : Service) (r : ClientRef) (name : String) (a : Attribute) :
    (s.setAttribute r name a).2.clients = s.clients := by
  unfold setAttribute
  split <;> rfl

theorem clients_removeAttribute (s : Service) (r : ClientRef) (name : String) :
    (s.removeAttribute r name).2.clients = s.clients := by
  unfold removeAttribute
  split <;> rfl

theorem clients_clearAttributes (s : Service) (r : ClientRef) :
    (s.clearAttributes r).clients = s.clients := by
  unfold clearAttributes
  split <;> rfl

/-- The cache after an event, except after an arrival. -/
theorem clients_step (s : Service) (e : Event) :
    (s.step e).clients = match e.plain? with
      | some (.arrive clientId a) => (s.arrive clientId a).2.clients
      | some (.look clientId) => (s.clients.get clientId s.clock).2
      | some (.present address token) =>
        match s.decryptToken address token with
        | .error _ => s.clients
        | .ok claims => (s.clients.get claims.clientId s.clock).2
      | some (.remove clientId) => { s.clients with table := s.clients.table.erase clientId }
      | some (.logout session) =>
        (s.clients.takeEntries fun e => s.holds (fun c => c.session == some session) e.value).2
      | some .purge => (s.clients.takeEntries fun e => !e.isLive s.clock).2
      | _ => s.clients := by
  cases e with
  | arrive clientId a => rfl
  | look clientId => exact clients_getClient s clientId
  | present address token =>
    show (s.clientOfToken address token).2.clients = match s.decryptToken address token with
      | .error _ => s.clients
      | .ok claims => (s.clients.get claims.clientId s.clock).2
    rw [clientOfToken_snd]
    cases s.decryptToken address token with
    | error e => rfl
    | ok claims => exact clients_getClient s claims.clientId
  | remove clientId => exact clients_removeClient s clientId
  | logout session => exact clients_registerLogout s session
  | purge => exact clients_purge s
  | message m =>
    rw [step_message]
    rcases Event.ofMessage?_cases m with ⟨h, _⟩ | ⟨l, h, _⟩ | ⟨session, h, _⟩ | ⟨h, _⟩
    all_goals simp only [Event.plain?, h]
    · rfl
    · rfl
    · exact clients_registerLogout s session
    · exact clients_purge s
  | checkCsrf token session consume =>
    show (s.checkCsrf token session consume).2.clients = s.clients
    rw [checkCsrf_snd]
  | setAttribute r name a => exact clients_setAttribute s r name a
  | removeAttribute r name => exact clients_removeAttribute s r name
  | clearAttributes r => exact clients_clearAttributes s r
  | issueCsrf | logon | takeNews | setClock | setWallClock | setDirectory => rfl

/-! ### Arrivals -/

variable {m : Matching} {clientId : String} {session : Option String} {user : User}

/-- Whom a logon is the same as, and what the search does to the entries. -/
inductive Finds (s : Service) (m : Matching) (clientId : String) (session : Option String)
    (user : User) : Option ClientRef × List ClientRef × Service → Prop where
  /-- A live client, whose lifetime starts anew. -/
  | live {k : String} {e : Cache.Entry ClientRef} (hentry : s.clients.slot? k = some e)
      (hlive : e.isLive s.clock = true) (htest : s.holds (m.test session user) e.value = true) :
      Finds s m clientId session user
        (some e.value, [], s.withClients (s.clients.refresh k s.clock))
  /-- Nobody. Only the entry of the presented id may change. -/
  | nobody {stale : List ClientRef} {clients : Cache String ClientRef}
      (hnone : m ≠ .clientId → ∀ k e, s.clients.slot? k = some e → e.isLive s.clock = true →
        s.holds (m.test session user) e.value = false)
      (hothers : ∀ k, k ≠ clientId → clients.slot? k = s.clients.slot? k)
      (httl : clients.ttl = s.clients.ttl) (hasc : clients.table.Ascending) :
      Finds s m clientId session user (none, stale, s.withClients clients)

/-- A search among all clients finds a live one that passes the test, if there
is one. -/
theorem finds_of_search (hasc : s.clients.table.Ascending) (m : Matching) (clientId : String)
    (session : Option String) (user : User) : s.Finds m clientId session user
      ((s.clients.find s.clock (s.holds (m.test session user))).1, [],
        s.withClients (s.clients.find s.clock (s.holds (m.test session user))).2) := by
  rcases Cache.find_cases hasc s.clock (s.holds (m.test session user)) with
    ⟨hfind, hnone⟩ | ⟨k, e, hentry, hlive, htest, hfind⟩
  · rw [hfind]
    exact .nobody (fun _ => hnone) (fun _ _ => rfl) rfl hasc
  · rw [hfind]
    exact .live hentry hlive htest

theorem finds_findMatch (hasc : s.clients.table.Ascending) (m : Matching) (clientId : String)
    (session : Option String) (user : User) :
    s.Finds m clientId session user (s.findMatch m clientId session user) := by
  cases m with
  | userName => exact finds_of_search hasc .userName clientId session user
  | session => exact finds_of_search hasc .session clientId session user
  | clientId =>
    simp only [findMatch, Cache.get_by_entry]
    cases hentry : s.clients.slot? clientId with
    | none => exact .nobody (fun h => absurd rfl h) (fun _ _ => rfl) rfl hasc
    | some e =>
      cases hlive : e.isLive s.clock with
      | false =>
        simp only [hlive, Bool.false_eq_true, if_false]
        refine .nobody (fun h => absurd rfl h) (fun k hk => ?_) rfl (hasc.erase clientId)
        rw [Cache.slot?_erase, if_neg hk]
      | true =>
        simp only [hlive, if_true]
        show s.Finds .clientId clientId session user
          (if s.holds (fun c => c.user.name == user.name) e.value = true then some e.value
            else none, [], s.withClients (s.clients.refresh clientId s.clock))
        split
        · rename_i htest
          exact .live hentry hlive htest
        · -- Another user's client stands under the id: it is refreshed, and replaced next.
          refine .nobody (fun h => absurd rfl h) (fun k hk => ?_) rfl (hasc.adjust clientId _)
          rw [Cache.slot?_refresh, if_neg hk]

theorem clients_issue (s : Service) (clientId : String) (session : Option String) (user : User)
    (rights : Rights) (stale : List ClientRef) :
    (s.issue clientId session user rights stale).2.clients
      = (s.clients.insert clientId s.records.length s.clock).2 :=
  clients_discardAll _ (stale ++ (s.clients.insert clientId s.records.length s.clock).1.toList)

theorem touch_eq (hr : s.record? r = some c) :
    s.touch r = { s with records := s.records.set r (c.touch s.now) } := by
  unfold touch updateRecord
  congr 1
  refine List.ext_getElem? fun r' => ?_
  rw [List.getElem?_modify, List.getElem?_set]
  by_cases hne : r = r'
  · subst hne
    obtain ⟨hlt, hget⟩ := List.getElem?_eq_some_iff.mp hr
    simp [hlt, hget]
  · simp [hne]

/-- The next reference names no client yet. -/
@[simp] theorem record?_length (s : Service) : s.record? s.records.length = none :=
  List.getElem?_eq_none (Nat.le_refl _)

theorem Issues.fresh (h : s.Issues clientId session user r s') : s.record? r = none := by
  rw [h.ref_eq, record?_length]

/-- Whom an arrival is given, and what becomes of the entries. -/
inductive Admits (s : Service) (clientId : String) (a : Arrival) :
    Except Error ClientRef × Service → Prop where
  | refused (e : Error) (hno : ∀ m session user, s.identify a = .ok (m, session, user) →
      s.directory.rights user = .error e) : Admits s clientId a (.error e, s)
  /-- A live client, which is only touched. -/
  | found {m : Matching} {session : Option String} {user : User} {k : String}
      {e : Cache.Entry ClientRef} {c : Client} (hidentify : s.identify a = .ok (m, session, user))
      (hentry : s.clients.slot? k = some e) (hlive : e.isLive s.clock = true)
      (hrecord : s.record? e.value = some c) (htest : m.test session user c = true) :
      Admits s clientId a (.ok e.value, { s with
        records := s.records.set e.value (c.touch s.now)
        clients := s.clients.refresh k s.clock })
  /-- A new client, which is stored under the id that was presented. -/
  | stored {m : Matching} {session : Option String} {user : User} {s' : Service}
      (hidentify : s.identify a = .ok (m, session, user))
      (hnone : m ≠ .clientId → ∀ k e, s.clients.slot? k = some e → e.isLive s.clock = true →
        s.holds (m.test session user) e.value = false)
      (hissues : s.Issues clientId session user s.records.length s')
      (hentry : ∀ k, s'.clients.slot? k = if k = clientId
        then some ⟨s.records.length, Cache.deadline s.clients.ttl s.clock⟩
        else s.clients.slot? k)
      (hasc : s'.clients.table.Ascending) (hframe : s'.frame = s.frame) :
      Admits s clientId a (.ok s.records.length, s')

theorem arrive_admits (hasc : s.clients.table.Ascending) (clientId : String) (a : Arrival) :
    Admits s clientId a (s.arrive clientId a) := by
  rw [arrive_eq]
  cases hidentify : s.identify a with
  | error e => exact .refused e fun _ _ _ h => by rw [hidentify] at h; cases h
  | ok identity =>
    obtain ⟨m, session, user⟩ := identity
    show Admits s clientId a (s.authenticate m clientId session user)
    have hkeeps := keeps_findMatch s m clientId session user
    unfold authenticate
    cases hrights : s.directory.rights user with
    | error e =>
      -- Rights are asked for first, so nothing has changed.
      refine .refused e fun _ _ _ h => ?_
      rw [hidentify] at h
      cases h
      exact hrights
    | ok rights =>
      have hfinds := finds_findMatch hasc m clientId session user
      generalize s.findMatch m clientId session user = found at hkeeps hfinds
      cases hfinds with
      | @live k e hentry hlive htest =>
        obtain ⟨c, hc, hmatch⟩ := (holds_iff _ _ _).mp htest
        have htouch := @touch_eq (s.withClients (s.clients.refresh k s.clock)) e.value c hc
        simp only [htouch]
        exact .found hidentify hentry hlive hc hmatch
      | @nobody stale clients hnone hothers httl hasc' =>
        -- What the search did to the entry of the presented id is overwritten.
        have hissues := hkeeps.issues (issues_issue _ clientId session user rights stale)
        have hinsert := clients_issue (s.withClients clients) clientId session user rights stale
        show Admits s clientId a (.ok s.records.length,
          ((s.withClients clients).issue clientId session user rights stale).2)
        refine .stored hidentify hnone hissues (fun k => ?_) ?_ ?_
        · rw [hinsert, Cache.slot?_insert]
          split
          · show some (Cache.Entry.mk s.records.length (Cache.deadline clients.ttl s.clock)) = _
            rw [httl]
          · rename_i hk
            exact hothers k hk
        · rw [hinsert]
          exact Table.ascending_insert hasc' _ _
        · exact (frame_issue _ clientId session user rights stale).trans (frame_withClients httl)

theorem frame_arrive (hasc : s.clients.table.Ascending) (clientId : String) (a : Arrival) :
    (s.arrive clientId a).2.frame = s.frame := by
  have hadmits := arrive_admits hasc clientId a
  generalize s.arrive clientId a = outcome at hadmits
  cases hadmits with
  | refused _ _ => rfl
  | found _ _ _ _ _ => rfl
  | stored _ _ _ _ _ hframe => exact hframe

end Service

end Backplane.Access
