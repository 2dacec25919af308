import Backplane.Access.Service
import Backplane.Proofs.Access.Cache

/-!
# `Backplane.Proofs.Access.Service`: what an operation does to the clients

A client record has a part that never changes: its client id, session,
user, rights and time of logon. An operation of the access service either
makes one record and stores it under its client id (`Issues`), or it
makes none, and every client that is stored afterwards was stored before
(`Keeps`). The main statements:

* `arrive_cases`: a logon is refused, finds a live client, or makes one.
* `found_of_findMatch`: what a logon finds is stored and passes the test of
  its entry point.
* `keeps_getClient`, `keeps_removeClient`, `keeps_purge` and the other
  `keeps_` theorems: no other operation makes a client.
-/

set_option autoImplicit false

namespace Backplane.Access

/-- Two states of one client. -/
structure Client.Same (c c' : Client) : Prop where
  clientId_eq : c'.clientId = c.clientId
  session_eq : c'.session = c.session
  user_eq : c'.user = c.user
  rights_eq : c'.rights = c.rights
  logonTime_eq : c'.logonTime = c.logonTime

namespace Client

theorem Same.refl (c : Client) : c.Same c := ⟨rfl, rfl, rfl, rfl, rfl⟩

theorem Same.trans {c₁ c₂ c₃ : Client} (h : c₁.Same c₂) (h' : c₂.Same c₃) : c₁.Same c₃ :=
  ⟨h'.clientId_eq.trans h.clientId_eq, h'.session_eq.trans h.session_eq,
    h'.user_eq.trans h.user_eq, h'.rights_eq.trans h.rights_eq,
    h'.logonTime_eq.trans h.logonTime_eq⟩

theorem same_touch (c : Client) (now : Int) : c.Same (c.touch now) := ⟨rfl, rfl, rfl, rfl, rfl⟩

theorem same_clear (c : Client) : c.Same c.clear.1 := by
  unfold clear
  split
  · exact Same.refl c
  · exact ⟨rfl, rfl, rfl, rfl, rfl⟩

theorem same_setAttribute (c : Client) (name : String) (a : Attribute) :
    c.Same (c.setAttribute name a).2.1 := by
  unfold setAttribute
  split
  · exact Same.refl c
  · exact ⟨rfl, rfl, rfl, rfl, rfl⟩

theorem same_removeAttribute (c : Client) (name : String) :
    c.Same (c.removeAttribute name).2.1 := by
  unfold removeAttribute
  split
  · exact Same.refl c
  · exact ⟨rfl, rfl, rfl, rfl, rfl⟩

end Client

namespace Service

/-! ### Operations that make no client -/

/-- No client is made: the records are those of before, and so is every
client that is stored. -/
structure Keeps (s s' : Service) : Prop where
  sessions_eq : s'.sessions = s.sessions
  length_eq : s'.records.length = s.records.length
  record : ∀ {r c}, s.record? r = some c → ∃ c', s'.record? r = some c' ∧ c.Same c'
  clients : s.clients.Within s'.clients

variable {s s' s₁ s₂ s₃ : Service}

theorem Keeps.refl (s : Service) : s.Keeps s :=
  ⟨rfl, rfl, fun {_ c} h => ⟨c, h, .refl c⟩, .refl _⟩

theorem Keeps.trans (h : s₁.Keeps s₂) (h' : s₂.Keeps s₃) : s₁.Keeps s₃ := by
  refine ⟨h'.sessions_eq.trans h.sessions_eq, h'.length_eq.trans h.length_eq, fun hr => ?_,
    h.clients.trans h'.clients⟩
  obtain ⟨c₂, hc₂, hsame⟩ := h.record hr
  obtain ⟨c₃, hc₃, hsame'⟩ := h'.record hc₂
  exact ⟨c₃, hc₃, hsame.trans hsame'⟩

/-- Every record was there before. -/
theorem Keeps.of_record? (h : s.Keeps s') {r : ClientRef} {c' : Client}
    (hr : s'.record? r = some c') : ∃ c, s.record? r = some c ∧ c.Same c' := by
  have hlt : r < s.records.length := h.length_eq ▸ (List.getElem?_eq_some_iff.mp hr).1
  obtain ⟨c₁, hc₁, hsame⟩ := h.record (List.getElem?_eq_getElem hlt)
  rw [hr] at hc₁
  cases hc₁
  exact ⟨_, List.getElem?_eq_getElem hlt, hsame⟩

/-- The records are left alone. -/
theorem keeps_of_records_eq (hsessions : s'.sessions = s.sessions) (hrecords : s'.records = s.records)
    (hclients : s.clients.Within s'.clients) : s.Keeps s' := by
  refine ⟨hsessions, by rw [hrecords], fun {r c} hr => ⟨c, ?_, .refl c⟩, hclients⟩
  unfold record?
  rw [hrecords]
  exact hr

/-- Only the stored clients change, and none is new. -/
theorem keeps_withClients {clients : Cache String ClientRef} (h : s.clients.Within clients) :
    s.Keeps { s with clients } :=
  keeps_of_records_eq rfl rfl h

/-- One record is put in the place of an earlier state of its client. -/
theorem keeps_set {r : ClientRef} {c c' : Client} (hr : s.record? r = some c) (hsame : c.Same c')
    (hsessions : s'.sessions = s.sessions) (hrecords : s'.records = s.records.set r c')
    (hclients : s'.clients = s.clients) : s.Keeps s' := by
  refine ⟨hsessions, by rw [hrecords, List.length_set], fun {r' c₁} hr' => ?_, ?_⟩
  · unfold record? at hr' hr ⊢
    rw [hrecords, List.getElem?_set]
    by_cases heq : r = r'
    · -- The record that is replaced.
      subst heq
      rw [hr'] at hr
      cases hr
      have hlt := (List.getElem?_eq_some_iff.mp hr').1
      exact ⟨c', by rw [if_pos rfl, if_pos hlt], hsame⟩
    · exact ⟨c₁, by rw [if_neg heq, hr'], .refl c₁⟩
  · rw [hclients]
    exact .refl _

theorem keeps_touch (s : Service) (r : ClientRef) : s.Keeps (s.touch r) := by
  refine ⟨rfl, List.length_modify _ _ _, fun {r' c} hr => ?_, .refl _⟩
  unfold record? at hr ⊢
  show ∃ c', (s.records.modify r _)[r']? = some c' ∧ _
  rw [List.getElem?_modify, hr]
  by_cases heq : r = r'
  · refine ⟨c.touch s.now, ?_, c.same_touch _⟩
    show some (if r = r' then c.touch s.now else c) = some (c.touch s.now)
    rw [if_pos heq]
  · refine ⟨c, ?_, .refl c⟩
    show some (if r = r' then c.touch s.now else c) = some c
    rw [if_neg heq]

theorem keeps_announce (s : Service) (issued : Bool) (c : Client) :
    s.Keeps (s.announce issued c) :=
  keeps_of_records_eq rfl rfl (.refl _)

theorem keeps_discard (s : Service) (r : ClientRef) : s.Keeps (s.discard r) := by
  unfold discard
  split
  · exact .refl s
  · rename_i c hr
    have hcleared : s.Keeps { s with
        records := s.records.set r c.clear.1, notices := s.notices ++ c.clear.2 } :=
      keeps_set hr c.same_clear rfl rfl rfl
    exact hcleared.trans (keeps_announce _ false c.clear.1)

theorem keeps_discardAll (s : Service) (rs : List ClientRef) : s.Keeps (s.discardAll rs) := by
  unfold discardAll
  induction rs generalizing s with
  | nil => exact .refl s
  | cons r rest ih => exact (keeps_discard s r).trans (ih _)

theorem keeps_getClient (s : Service) (clientId : String) :
    s.Keeps (s.getClient clientId).2 := by
  have hwithin := Cache.within_get s.clients clientId s.clock
  unfold getClient
  split
  · rename_i r clients hget
    rw [hget] at hwithin
    show s.Keeps (({ s with clients } : Service).touch r)
    exact (keeps_withClients hwithin).trans (keeps_touch _ r)
  · rename_i r clients hget
    rw [hget] at hwithin
    show s.Keeps (({ s with clients } : Service).discard r)
    exact (keeps_withClients hwithin).trans (keeps_discard _ r)
  · rename_i clients hget
    rw [hget] at hwithin
    exact keeps_withClients hwithin

theorem keeps_removeClient (s : Service) (clientId : String) :
    s.Keeps (s.removeClient clientId).2 := by
  have hwithin := Cache.within_remove s.clients clientId
  unfold removeClient
  split
  · rename_i clients hremove
    rw [hremove] at hwithin
    exact keeps_withClients hwithin
  · rename_i r clients hremove
    rw [hremove] at hwithin
    show s.Keeps (({ s with clients } : Service).discard r)
    exact (keeps_withClients hwithin).trans (keeps_discard _ r)

theorem keeps_purge (s : Service) : s.Keeps s.purge.2 := by
  have hwithin : s.clients.Within (s.clients.purge s.clock).2 :=
    Cache.within_takeEntries s.clients _
  have hdropped : s.Keeps { s with
      clients := (s.clients.purge s.clock).2, csrf := (s.csrf.purge s.clock).2 } :=
    keeps_of_records_eq rfl rfl hwithin
  exact hdropped.trans (keeps_discardAll _ (s.clients.purge s.clock).1)

theorem keeps_clientOfToken (s : Service) (address token : String) :
    s.Keeps (s.clientOfToken address token).2 := by
  unfold clientOfToken
  split
  · exact .refl s
  · rename_i claims _
    have hget := keeps_getClient s claims.clientId
    split
    · rename_i heq
      rwa [heq] at hget
    · rename_i heq
      rw [heq] at hget
      split
      · exact hget
      · split <;> exact hget

theorem keeps_issueCsrf (s : Service) (session : String) (random : List UInt8) :
    s.Keeps (s.issueCsrf session random).2 :=
  keeps_of_records_eq rfl rfl (.refl _)

theorem keeps_checkCsrf (s : Service) (token session : String) (consume : Bool) :
    s.Keeps (s.checkCsrf token session consume).2 := by
  unfold checkCsrf
  split
  · split <;> exact keeps_of_records_eq rfl rfl (.refl _)
  · exact keeps_of_records_eq rfl rfl (.refl _)

theorem keeps_setAttribute (s : Service) (r : ClientRef) (name : String) (a : Attribute) :
    s.Keeps (s.setAttribute r name a).2 := by
  unfold setAttribute
  split
  · exact .refl s
  · rename_i c hr
    exact keeps_set hr (c.same_setAttribute name a) rfl rfl rfl

theorem keeps_removeAttribute (s : Service) (r : ClientRef) (name : String) :
    s.Keeps (s.removeAttribute r name).2 := by
  unfold removeAttribute
  split
  · exact .refl s
  · rename_i c hr
    exact keeps_set hr (c.same_removeAttribute name) rfl rfl rfl

theorem keeps_clearAttributes (s : Service) (r : ClientRef) : s.Keeps (s.clearAttributes r) := by
  unfold clearAttributes
  split
  · exact .refl s
  · rename_i c hr
    exact keeps_set hr c.same_clear rfl rfl rfl

/-- A logout forgets the session. -/
theorem keeps_registerLogout (s : Service) (session : String) :
    Keeps { s with sessions := s.sessions.erase session } (s.registerLogout session).2 := by
  let gone := s.clients.removeWhere (s.holds fun c => c.session == some session)
  have hwithin : s.clients.Within gone.2 := Cache.within_takeEntries s.clients _
  have hdropped : Keeps { s with sessions := s.sessions.erase session }
      { s with sessions := s.sessions.erase session, clients := gone.2 } :=
    keeps_withClients hwithin
  exact hdropped.trans (keeps_discardAll _ gone.1)

/-- A logout leaves no client of the session behind. -/
theorem not_holds_registerLogout (s : Service) (session : String) {k : String} {r : ClientRef}
    (h : (s.registerLogout session).2.clients.Holds k r) :
    s.holds (fun c => c.session == some session) r = false := by
  let gone := s.clients.removeWhere (s.holds fun c => c.session == some session)
  have hkeeps : Keeps { s with sessions := s.sessions.erase session, clients := gone.2 }
      (s.registerLogout session).2 := keeps_discardAll _ gone.1
  exact Cache.not_holds_removeWhere (hkeeps.clients k r h)

/-! ### Logons -/

/-- The four ways in which a client arrives. -/
inductive Arrival where
  | anonymous
  | credentials (name password : String)
  /-- The caller vouches for the user. -/
  | user (user : User)
  | session (session : String)
deriving Repr, DecidableEq

/-- Authenticates a client that arrives. -/
def arrive (s : Service) (clientId : String) : Arrival → Except Error ClientRef × Service
  | .anonymous => s.addAnonymous clientId
  | .credentials name password => s.addCredentials name password clientId
  | .user user => s.addUser user clientId
  | .session session => s.addSession session clientId

/-- How a client that arrives is matched, with which session, and as which
user; or why it is refused. -/
def identify (s : Service) : Arrival → Except Error (Matching × Option String × User)
  | .anonymous =>
    match s.settings.anonymousUser with
    | none => .error .anonymousDisabled
    | some name =>
      match s.directory.byName name with
      | .error e => .error e
      | .ok none => .error .anonymousDisabled
      | .ok (some user) => .ok (.clientId, none, user)
  | .credentials name password =>
    match s.userOfCredentials name password with
    | .error e => .error e
    | .ok user => .ok (.userName, none, user)
  | .user user => .ok (.userName, none, user)
  | .session session =>
    match s.sessions.get? session with
    | none => .error (.unknownSession session)
    | some logon =>
      match s.directory.byId logon.userId with
      | .error e => .error e
      | .ok none => .error (.unknownUser logon.userId)
      | .ok (some user) => .ok (.session, some session, user)

/-- All four ways end in one authentication. -/
theorem arrive_eq (s : Service) (clientId : String) (a : Arrival) :
    s.arrive clientId a = match s.identify a with
      | .error e => (.error e, s)
      | .ok (m, session, user) => s.authenticate m clientId session user := by
  cases a with
  | anonymous =>
    show s.addAnonymous clientId = _
    simp only [addAnonymous, identify]
    cases s.settings.anonymousUser with
    | none => rfl
    | some name =>
      simp only
      rcases s.directory.byName name with e | _ | user <;> rfl
  | credentials name password =>
    show s.addCredentials name password clientId = _
    simp only [addCredentials, identify]
    rcases s.userOfCredentials name password with e | user <;> rfl
  | user user => rfl
  | session session =>
    show s.addSession session clientId = _
    simp only [addSession, identify]
    cases s.sessions.get? session with
    | none => rfl
    | some logon =>
      simp only
      rcases s.directory.byId logon.userId with e | _ | user <;> rfl

/-- A directory that answers for an id answers with a user of that id. -/
theorem id_of_byId {d : Directory} {id : Int} {user : User} (h : d.byId id = .ok (some user)) :
    user.id = id := by
  unfold Directory.byId Directory.ask at h
  split at h
  · cases h
  · have hfind := Except.ok.inj h
    obtain ⟨account, haccount, rfl⟩ := Option.map_eq_some_iff.mp hfind
    have htest := List.find?_some haccount
    exact of_decide_eq_true htest

/-- An anonymous client is matched by its client id, one of a session by the
session, and all others by the user's name. -/
theorem identify_cases {s : Service} {a : Arrival} {m : Matching} {session : Option String}
    {user : User} (h : s.identify a = .ok (m, session, user)) :
    (a = .anonymous ∧ m = .clientId ∧ session = none) ∨
      ((∀ name, a ≠ .session name) ∧ a ≠ .anonymous ∧ m = .userName ∧ session = none) ∨
      ∃ name logon, a = .session name ∧ m = .session ∧ session = some name ∧
        s.sessions.get? name = some logon ∧ user.id = logon.userId := by
  cases a with
  | anonymous =>
    simp only [identify] at h
    split at h
    · cases h
    · split at h
      · cases h
      · cases h
      · cases h
        exact .inl ⟨rfl, rfl, rfl⟩
  | credentials name password =>
    simp only [identify] at h
    split at h
    · cases h
    · cases h
      exact .inr (.inl ⟨by simp, by simp, rfl, rfl⟩)
  | user user =>
    cases h
    exact .inr (.inl ⟨by simp, by simp, rfl, rfl⟩)
  | session name =>
    simp only [identify] at h
    split at h
    · cases h
    · rename_i logon hlogon
      split at h
      · cases h
      · cases h
      · rename_i user hbyId
        cases h
        exact .inr (.inr ⟨name, logon, rfl, rfl, rfl, hlogon, id_of_byId hbyId⟩)

theorem identify_credentials {s : Service} {name password : String} {user : User}
    (h : s.directory.login name password = .ok (some user)) :
    s.identify (.credentials name password) = .ok (.userName, none, user) := by
  have huser : s.userOfCredentials name password = .ok user := by
    unfold userOfCredentials
    rw [h]
    rfl
  simp only [identify, huser]

theorem identify_session {s : Service} {name : String} {m : Matching} {session : Option String}
    {user : User} (h : s.identify (.session name) = .ok (m, session, user)) :
    ∃ l, m = .session ∧ session = some name ∧ s.sessions.get? name = some l ∧
      user.id = l.userId := by
  rcases identify_cases h with ⟨ha, _⟩ | ⟨hnot, _⟩ | ⟨name', l, ha, hm, hsession, hl, hid⟩
  · cases ha
  · exact absurd rfl (hnot name)
  · cases ha
    exact ⟨l, hm, hsession, hl, hid⟩

/-- What a client has to have in common with a logon. -/
def Matching.test (m : Matching) (session : Option String) (user : User) (c : Client) : Bool :=
  match m with
  | .session => c.session == session
  | _ => c.user.name == user.name

variable {m : Matching} {clientId : String} {session : Option String} {user : User}
  {r : ClientRef}

theorem holds_iff (s : Service) (p : Client → Bool) (r : ClientRef) :
    s.holds p r = true ↔ ∃ c, s.record? r = some c ∧ p c = true :=
  Option.any_eq_true p (s.record? r)

/-- A logon finds a client that is stored and has in common with it what
its entry point asks for. -/
theorem found_of_findMatch (h : (s.findMatch m clientId session user).1 = some r) :
    s.holds (Matching.test m session user) r = true ∧
      ∃ k, s.clients.Holds k r ∧ (m = .clientId → k = clientId) := by
  cases m with
  | userName =>
    obtain ⟨htest, k, hk⟩ := Cache.holds_of_find h
    exact ⟨htest, k, hk, fun heq => nomatch heq⟩
  | session =>
    obtain ⟨htest, k, hk⟩ := Cache.holds_of_find h
    exact ⟨htest, k, hk, fun heq => nomatch heq⟩
  | clientId =>
    simp only [findMatch] at h
    split at h
    · rename_i r' clients hget
      split at h
      · rename_i htest
        cases h
        have hhit : (s.clients.get clientId s.clock).1 = .hit r := by rw [hget]
        exact ⟨htest, clientId, Cache.holds_of_get hhit, fun _ => rfl⟩
      · cases h
    · cases h
    · cases h

theorem keeps_findMatch (s : Service) (m : Matching) (clientId : String)
    (session : Option String) (user : User) :
    s.Keeps (s.findMatch m clientId session user).2.2 := by
  cases m with
  | userName => exact keeps_withClients (Cache.within_find _ _ _)
  | session => exact keeps_withClients (Cache.within_find _ _ _)
  | clientId =>
    have hwithin := Cache.within_get s.clients clientId s.clock
    simp only [findMatch]
    split
    all_goals
      rename_i hget
      rw [hget] at hwithin
      exact keeps_withClients hwithin

/-- One client is made for a logon, under a new reference, and stored under
its client id. -/
structure Issues (s : Service) (clientId : String) (session : Option String) (user : User)
    (r : ClientRef) (s' : Service) : Prop where
  ref_eq : r = s.records.length
  sessions_eq : s'.sessions = s.sessions
  length_eq : s'.records.length = s.records.length + 1
  made : ∃ c, s'.record? r = some c ∧ c.clientId = clientId ∧ c.session = session ∧ c.user = user
  record : ∀ {r c}, s.record? r = some c → ∃ c', s'.record? r = some c' ∧ c.Same c'
  clients : ∀ k v, s'.clients.Holds k v → (k = clientId ∧ v = r) ∨ s.clients.Holds k v

/-- The new client stays if nothing is made after it. -/
theorem Issues.keeps (h : s₁.Issues clientId session user r s₂) (h' : s₂.Keeps s₃) :
    s₁.Issues clientId session user r s₃ := by
  refine ⟨h.ref_eq, h'.sessions_eq.trans h.sessions_eq, h'.length_eq.trans h.length_eq, ?_,
    fun hr => ?_, fun k v hv => h.clients k v (h'.clients k v hv)⟩
  · obtain ⟨c, hc, hid, hsession, huser⟩ := h.made
    obtain ⟨c', hc', hsame⟩ := h'.record hc
    exact ⟨c', hc', hsame.clientId_eq.trans hid, hsame.session_eq.trans hsession,
      hsame.user_eq.trans huser⟩
  · obtain ⟨c₂, hc₂, hsame⟩ := h.record hr
    obtain ⟨c₃, hc₃, hsame'⟩ := h'.record hc₂
    exact ⟨c₃, hc₃, hsame.trans hsame'⟩

/-- It is new if nothing is made before it. -/
theorem Keeps.issues (h : s₁.Keeps s₂) (h' : s₂.Issues clientId session user r s₃) :
    s₁.Issues clientId session user r s₃ := by
  refine ⟨h'.ref_eq.trans h.length_eq, h'.sessions_eq.trans h.sessions_eq, ?_, h'.made,
    fun hr => ?_, fun k v hv => (h'.clients k v hv).imp_right (h.clients k v)⟩
  · rw [h'.length_eq, h.length_eq]
  · obtain ⟨c₂, hc₂, hsame⟩ := h.record hr
    obtain ⟨c₃, hc₃, hsame'⟩ := h'.record hc₂
    exact ⟨c₃, hc₃, hsame.trans hsame'⟩

theorem issues_issue (s : Service) (clientId : String) (session : Option String) (user : User)
    (rights : Rights) (stale : List ClientRef) :
    s.Issues clientId session user (s.issue clientId session user rights stale).1
      (s.issue clientId session user rights stale).2 := by
  let c := Client.logon clientId session user rights s.now
  let stored := s.clients.insert clientId s.records.length s.clock
  -- Storing the record makes the client; what follows makes none.
  have hstored : s.Issues clientId session user s.records.length
      { s with records := s.records ++ [c], clients := stored.2 } := by
    refine ⟨rfl, rfl, List.length_append, ⟨c, ?_, rfl, rfl, rfl⟩, fun {r c₁} hr => ?_, ?_⟩
    · exact List.getElem?_concat_length
    · refine ⟨c₁, ?_, .refl c₁⟩
      exact (List.getElem?_append_left (List.getElem?_eq_some_iff.mp hr).1).trans hr
    · exact fun k v hv => Cache.holds_insert hv
  exact hstored.keeps ((keeps_discardAll _ (stale ++ stored.1.toList)).trans (keeps_announce _ _ _))

/-- What an arrival can lead to. -/
inductive Arrives (s : Service) (clientId : String) (a : Arrival) :
    Except Error ClientRef × Service → Prop where
  | refused (e : Error) : Arrives s clientId a (.error e, s)
  /-- A live client is found. -/
  | found {m : Matching} {session : Option String} {user : User} {r : ClientRef} {s' : Service}
      (rights : Rights) (hidentify : s.identify a = .ok (m, session, user))
      (hrights : s.directory.rights user = .ok rights)
      (hfound : (s.findMatch m clientId session user).1 = some r) (hkeeps : s.Keeps s') :
      Arrives s clientId a (.ok r, s')
  /-- A client is made. -/
  | issued {m : Matching} {session : Option String} {user : User} {r : ClientRef} {s' : Service}
      (rights : Rights) (hidentify : s.identify a = .ok (m, session, user))
      (hrights : s.directory.rights user = .ok rights)
      (hnone : (s.findMatch m clientId session user).1 = none)
      (hissues : s.Issues clientId session user r s') : Arrives s clientId a (.ok r, s')

/-- A client that arrives is refused, or is given a live client or a new
one. -/
theorem arrive_cases (s : Service) (clientId : String) (a : Arrival) :
    Arrives s clientId a (s.arrive clientId a) := by
  rw [arrive_eq]
  cases hidentify : s.identify a with
  | error e => exact .refused e
  | ok identity =>
    obtain ⟨m, session, user⟩ := identity
    show Arrives s clientId a (s.authenticate m clientId session user)
    have hkeeps := keeps_findMatch s m clientId session user
    unfold authenticate
    cases hrights : s.directory.rights user with
    | error e => exact .refused e
    | ok rights =>
      simp only
      split
      · rename_i r stale s₁ hfind
        rw [hfind] at hkeeps
        have hfound : (s.findMatch m clientId session user).1 = some r := by rw [hfind]
        exact .found rights hidentify hrights hfound (hkeeps.trans (keeps_touch s₁ r))
      · rename_i stale s₁ hfind
        rw [hfind] at hkeeps
        have hnone : (s.findMatch m clientId session user).1 = none := by rw [hfind]
        exact .issued rights hidentify hrights hnone
          (hkeeps.issues (issues_issue s₁ clientId session user rights stale))

/-- A client that is found is given out, provided that the directory answers
for the rights of the user. -/
theorem arrive_of_found {a : Arrival} {rights : Rights}
    (hidentify : s.identify a = .ok (m, session, user))
    (hrights : s.directory.rights user = .ok rights)
    (hfound : (s.findMatch m clientId session user).1 = some r) :
    (s.arrive clientId a).1 = .ok r := by
  rw [arrive_eq, hidentify]
  show (s.authenticate m clientId session user).1 = .ok r
  unfold authenticate
  rw [hrights]
  simp only
  split
  · rename_i r' stale s₁ hfind
    rw [hfind] at hfound
    cases hfound
    rfl
  · rename_i stale s₁ hfind
    rw [hfind] at hfound
    cases hfound

end Service

end Backplane.Access
