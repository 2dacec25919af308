import Backplane.Node.Basic
import Backplane.Proofs.Access.Service
import Mathlib.Data.Nat.Init

/-!
# `Backplane.Proofs.Access.History`: histories of an access service

A history starts with a service without clients and is a list of events:
whatever callers ask of the service, messages from the bus, and changes of
the clocks and of the directory, to any values and in any order.
`h.after n` is the service after the first `n` of them. The main
statements:

* `step_cases`: every event keeps the clients, makes one, or is about a
  session.
* `created_of_record`: every client record was made for an arrival, with
  the client id, session and user of that arrival.
* `filed_after`: every client is stored under its own client id.
* `access_keepSessions`: the events of messages are what the session
  keeper of a node makes of them.
-/

set_option autoImplicit false

namespace Backplane.Access

/-- What can happen to an access service. -/
inductive Event where
  | arrive (clientId : String) (a : Service.Arrival)
  | look (clientId : String)
  | remove (clientId : String)
  | purge
  /-- A bearer token is used. -/
  | present (address token : String)
  | issueCsrf (session : String) (random : List UInt8)
  | checkCsrf (token session : String) (consume : Bool)
  | logon (session : String) (logon : Logon)
  | logout (session : String)
  /-- The bus brings a message. -/
  | message (m : Bus.Message Node.Listener)
  | setAttribute (r : ClientRef) (name : String) (a : Attribute)
  | removeAttribute (r : ClientRef) (name : String)
  | clearAttributes (r : ClientRef)
  /-- Somebody takes the news out of the outbox. -/
  | takeNews
  | setClock (clock : UInt64)
  | setWallClock (time : Int)
  | setDirectory (directory : Directory)

namespace Service

/-- What a message does to the service. -/
def receive (s : Service) (m : Bus.Message Node.Listener) : Service :=
  if m.id = .userLogon then
    match Node.logonOf m with
    | .error _ => s
    | .ok (session, logon) => s.registerLogon session logon
  else if m.id = .userLogout then
    match Node.sessionOf m with
    | .error _ => s
    | .ok session => (s.registerLogout session).2
  else if m.id = .idle10 then s.purge.2
  else s

/-- The service after an event. -/
def step (s : Service) : Event → Service
  | .arrive clientId a => (s.arrive clientId a).2
  | .look clientId => (s.getClient clientId).2
  | .remove clientId => (s.removeClient clientId).2
  | .purge => s.purge.2
  | .present address token => (s.clientOfToken address token).2
  | .issueCsrf session random => (s.issueCsrf session random).2
  | .checkCsrf token session consume => (s.checkCsrf token session consume).2
  | .logon session logon => s.registerLogon session logon
  | .logout session => (s.registerLogout session).2
  | .message m => s.receive m
  | .setAttribute r name a => (s.setAttribute r name a).2
  | .removeAttribute r name => (s.removeAttribute r name).2
  | .clearAttributes r => s.clearAttributes r
  | .takeNews => { s with outbox := [] }
  | .setClock clock => { s with clock }
  | .setWallClock time => { s with wallClock := time }
  | .setDirectory directory => { s with directory }

end Service

/-- The session that an event announces a user for. -/
def Event.logsOn? : Event → Option (String × Logon)
  | .logon session l => some (session, l)
  | .message m => if m.id = .userLogon then (Node.logonOf m).toOption else none
  | _ => none

namespace Service

/-- What an event can do to a service. -/
inductive Change (s : Service) (e : Event) (s' : Service) : Prop where
  | keeps (h : s.Keeps s')
  /-- A client arrives, and one is made for it. -/
  | issued {clientId : String} {a : Arrival} {m : Matching} {session : Option String}
      {user : User} {r : ClientRef} (he : e = .arrive clientId a)
      (hidentify : s.identify a = .ok (m, session, user))
      (hresult : (s.arrive clientId a).1 = .ok r) (h : s.Issues clientId session user r s')
  | logon (session : String) (logon : Logon) (he : e.logsOn? = some (session, logon))
      (h : s' = s.registerLogon session logon)
  | logout (session : String) (h : s' = (s.registerLogout session).2)

theorem receive_cases (s : Service) (m : Bus.Message Node.Listener) :
    Change s (.message m) (s.receive m) := by
  unfold receive
  split
  · rename_i hid
    cases hlogon : Node.logonOf m with
    | error e => exact .keeps (.refl s)
    | ok announced =>
      refine .logon announced.1 announced.2 ?_ rfl
      show (if m.id = .userLogon then (Node.logonOf m).toOption else none) = _
      rw [if_pos hid, hlogon]
      rfl
  · split
    · cases Node.sessionOf m with
      | error e => exact .keeps (.refl s)
      | ok session => exact .logout session rfl
    · split
      · exact .keeps (keeps_purge s)
      · exact .keeps (.refl s)

/-- Every event keeps the clients, makes one, or is about a session. -/
theorem step_cases (s : Service) (e : Event) : Change s e (s.step e) := by
  cases e with
  | arrive clientId a =>
    have hcases := arrive_cases s clientId a
    cases hresult : s.arrive clientId a with
    | mk result s' =>
      rw [hresult] at hcases
      show Change s _ (s.arrive clientId a).2
      rw [hresult]
      cases hcases with
      | refused e => exact .keeps (.refl s)
      | found _ _ _ _ hkeeps => exact .keeps hkeeps
      | issued _ hidentify _ _ hissues => exact .issued rfl hidentify (by rw [hresult]) hissues
  | look clientId => exact .keeps (keeps_getClient s clientId)
  | remove clientId => exact .keeps (keeps_removeClient s clientId)
  | purge => exact .keeps (keeps_purge s)
  | present address token => exact .keeps (keeps_clientOfToken s address token)
  | issueCsrf session random => exact .keeps (keeps_issueCsrf s session random)
  | checkCsrf token session consume => exact .keeps (keeps_checkCsrf s token session consume)
  | logon session logon => exact .logon session logon rfl rfl
  | logout session => exact .logout session rfl
  | message m => exact receive_cases s m
  | setAttribute r name a => exact .keeps (keeps_setAttribute s r name a)
  | removeAttribute r name => exact .keeps (keeps_removeAttribute s r name)
  | clearAttributes r => exact .keeps (keeps_clearAttributes s r)
  | takeNews => exact .keeps (keeps_of_records_eq rfl rfl (.refl _))
  | setClock clock => exact .keeps (keeps_of_records_eq rfl rfl (.refl _))
  | setWallClock time => exact .keeps (keeps_of_records_eq rfl rfl (.refl _))
  | setDirectory directory => exact .keeps (keeps_of_records_eq rfl rfl (.refl _))

variable {s : Service} {e : Event} {r : ClientRef} {k : String}

/-- A record lasts, and the part of it that never changes stays. -/
theorem record_after (s : Service) (e : Event) {c : Client} (hr : s.record? r = some c) :
    ∃ c', (s.step e).record? r = some c' ∧ c.Same c' := by
  cases step_cases s e with
  | keeps h => exact h.record hr
  | issued _ _ _ h => exact h.record hr
  | logon session logon _ h =>
    rw [h]
    exact ⟨c, hr, .refl c⟩
  | logout session h =>
    rw [h]
    exact (keeps_registerLogout s session).record hr

/-- Every record that is there after an event was there before, or the
event made it. -/
theorem record_before {c' : Client} (hr : (s.step e).record? r = some c') :
    (∃ c, s.record? r = some c ∧ c.Same c') ∨
      ∃ clientId a m session user, e = .arrive clientId a ∧
        s.identify a = .ok (m, session, user) ∧ (s.arrive clientId a).1 = .ok r ∧
        s.record? r = none ∧ c'.clientId = clientId ∧ c'.session = session ∧ c'.user = user := by
  cases step_cases s e with
  | keeps h => exact .inl (h.of_record? hr)
  | @issued clientId a m session user r' he hidentify hresult h =>
    obtain ⟨c, hc, hid, hsession, huser⟩ := h.made
    by_cases hnew : r = r'
    · subst hnew
      rw [hr] at hc
      cases hc
      have hnone : s.record? r = none := by
        unfold record?
        rw [h.ref_eq]
        exact List.getElem?_eq_none (Nat.le_refl _)
      exact .inr ⟨clientId, a, m, session, user, he, hidentify, hresult, hnone, hid, hsession,
        huser⟩
    · -- The event makes one record, and this is another one.
      have hlt : r < s.records.length := by
        have hle := (List.getElem?_eq_some_iff.mp hr).1
        rw [h.length_eq] at hle
        exact Nat.lt_of_le_of_ne (Nat.le_of_lt_succ hle) (h.ref_eq ▸ hnew)
      obtain ⟨c₁, hc₁, hsame⟩ := h.record (List.getElem?_eq_getElem hlt)
      rw [hr] at hc₁
      cases hc₁
      exact .inl ⟨_, List.getElem?_eq_getElem hlt, hsame⟩
  | logon session logon _ h =>
    rw [h] at hr
    exact .inl ⟨c', hr, .refl c'⟩
  | logout session h =>
    rw [h] at hr
    exact .inl ((keeps_registerLogout s session).of_record? hr)

/-- Every client that is stored is stored under its own client id. -/
def Filed (s : Service) : Prop :=
  ∀ k r, s.clients.Holds k r → ∃ c, s.record? r = some c ∧ c.clientId = k

theorem Keeps.filed {s' : Service} (h : s.Keeps s') (hs : s.Filed) : s'.Filed := by
  intro k r hk
  obtain ⟨c, hc, hid⟩ := hs k r (h.clients k r hk)
  obtain ⟨c', hc', hsame⟩ := h.record hc
  exact ⟨c', hc', hsame.clientId_eq.trans hid⟩

theorem filed_step (hs : s.Filed) (e : Event) : (s.step e).Filed := by
  cases step_cases s e with
  | keeps h => exact h.filed hs
  | @issued clientId a m session user r' _ _ _ h =>
    intro k r hk
    rcases h.clients k r hk with ⟨rfl, rfl⟩ | hold
    · obtain ⟨c, hc, hid, _⟩ := h.made
      exact ⟨c, hc, hid⟩
    · obtain ⟨c, hc, hid⟩ := hs k r hold
      obtain ⟨c', hc', hsame⟩ := h.record hc
      exact ⟨c', hc', hsame.clientId_eq.trans hid⟩
  | logon session logon _ h =>
    rw [h]
    exact hs
  | logout session h =>
    rw [h]
    exact (keeps_registerLogout s session).filed hs

end Service

/-! ### Histories -/

/-- A history: how the service starts, and what happens to it. -/
structure History where
  settings : Settings
  directory : Directory
  keys : Key.Store
  clock : UInt64
  events : List Event

namespace History

/-- The service after the first `n` events. -/
def after (h : History) (n : Nat) : Service :=
  (h.events.take n).foldl Service.step (.start h.settings h.directory h.keys h.clock)

variable {h : History} {n : Nat}

theorem after_succ {e : Event} (he : h.events[n]? = some e) :
    h.after (n + 1) = (h.after n).step e := by
  unfold after
  rw [List.take_add_one, he, Option.toList_some, List.foldl_append]
  rfl

theorem after_of_end (he : h.events[n]? = none) : h.after (n + 1) = h.after n := by
  unfold after
  rw [List.take_add_one, he, Option.toList_none, List.append_nil]

/-- What holds at first, and is kept by each event of the history, holds at
every moment. -/
theorem after_induction {motive : Service → Prop} (first : motive (h.after 0))
    (next : ∀ n e, h.events[n]? = some e → motive (h.after n) → motive ((h.after n).step e))
    (n : Nat) : motive (h.after n) := by
  induction n with
  | zero => exact first
  | succ n ih =>
    cases he : h.events[n]? with
    | none => rwa [after_of_end he]
    | some e =>
      rw [after_succ he]
      exact next n e he ih

theorem not_holds_after_zero (h : History) {k : String} {r : ClientRef} :
    ¬ (h.after 0).clients.Holds k r := by
  rintro ⟨e, he, _⟩
  cases he

/-- At every moment every client is stored under its own client id. -/
theorem filed_after (h : History) (n : Nat) : (h.after n).Filed :=
  after_induction (fun _ _ hk => absurd hk h.not_holds_after_zero)
    (fun _ e _ hfiled => Service.filed_step hfiled e) n

/-- A record lasts from the moment it is made. -/
theorem record_mono {i j : Nat} (hle : i ≤ j) {r : ClientRef} {c : Client}
    (hr : (h.after i).record? r = some c) : ∃ c', (h.after j).record? r = some c' ∧ c.Same c' := by
  induction j, hle using Nat.le_induction with
  | base => exact ⟨c, hr, .refl c⟩
  | succ j _ ih =>
    obtain ⟨c₁, hc₁, hsame⟩ := ih
    cases he : h.events[j]? with
    | none =>
      rw [after_of_end he]
      exact ⟨c₁, hc₁, hsame⟩
    | some e =>
      rw [after_succ he]
      obtain ⟨c₂, hc₂, hsame'⟩ := Service.record_after _ e hc₁
      exact ⟨c₂, hc₂, hsame.trans hsame'⟩

/-- Event `n` is the arrival of a client, which is given the record `r`. -/
def GivenAt (h : History) (n : Nat) (clientId : String) (a : Service.Arrival) (r : ClientRef) :
    Prop :=
  h.events[n]? = some (.arrive clientId a) ∧ ((h.after n).arrive clientId a).1 = .ok r

/-- The record is made for the arrival. -/
def CreatedAt (h : History) (n : Nat) (clientId : String) (a : Service.Arrival) (r : ClientRef) :
    Prop :=
  h.GivenAt n clientId a r ∧ (h.after n).record? r = none

/-- Every record was made for an arrival, with the client id, session and
user of that arrival. -/
theorem created_of_record {r : ClientRef} {c : Client} (hr : (h.after n).record? r = some c) :
    ∃ i clientId a m session user, i < n ∧ h.CreatedAt i clientId a r ∧
      (h.after i).identify a = .ok (m, session, user) ∧
      c.clientId = clientId ∧ c.session = session ∧ c.user = user := by
  induction n generalizing c with
  | zero => cases hr
  | succ n ih =>
    cases he : h.events[n]? with
    | none =>
      rw [after_of_end he] at hr
      obtain ⟨i, clientId, a, m, session, user, hi, hrest⟩ := ih hr
      exact ⟨i, clientId, a, m, session, user, Nat.lt_succ_of_lt hi, hrest⟩
    | some e =>
      rw [after_succ he] at hr
      rcases Service.record_before hr with ⟨c₀, hc₀, hsame⟩ |
        ⟨clientId, a, m, session, user, rfl, hidentify, hresult, hnone, hfields⟩
      · obtain ⟨i, clientId, a, m, session, user, hi, hcreated, hidentify, hid, hsession, huser⟩ :=
          ih hc₀
        exact ⟨i, clientId, a, m, session, user, Nat.lt_succ_of_lt hi, hcreated, hidentify,
          hsame.clientId_eq.trans hid, hsame.session_eq.trans hsession, hsame.user_eq.trans huser⟩
      · exact ⟨n, clientId, a, m, session, user, Nat.lt_succ_self n, ⟨⟨he, hresult⟩, hnone⟩,
          hidentify, hfields⟩

end History

/-! ### The session keeper of a node -/

theorem access_postNews (n : Node) (a : Announcement) :
    (n.postNews a).host.access = n.host.access := by
  unfold Node.postNews Node.post
  simp only
  split
  · unfold Node.wakeWorker
    split <;> rfl
  · rfl

theorem access_deliverNews (n : Node) :
    n.deliverNews.host.access = { n.host.access with outbox := [] } := by
  have hfold : ∀ (news : List Announcement) (n : Node),
      (news.foldl Node.postNews n).host.access = n.host.access := by
    intro news
    induction news with
    | nil => exact fun _ => rfl
    | cons a rest ih =>
      intro n
      rw [List.foldl_cons, ih, access_postNews]
  unfold Node.deliverNews
  simp only
  split
  · exact hfold _ _
  · rfl

/-- What the session keeper of a node does with a message is what the event
of the message does; afterwards the news may have been taken. -/
theorem access_keepSessions (m : Bus.Message Node.Listener) (n : Node) :
    (Node.keepSessions m n).2.host.access = n.host.access.step (.message m) ∨
      (Node.keepSessions m n).2.host.access
        = (n.host.access.step (.message m)).step .takeNews := by
  show _ = n.host.access.receive m ∨ _ = { n.host.access.receive m with outbox := [] }
  unfold Node.keepSessions Service.receive
  split
  · cases Node.logonOf m with
    | error e => exact .inl rfl
    | ok announced => exact .inr (access_deliverNews _)
  · split
    · cases Node.sessionOf m with
      | error e => exact .inl rfl
      | ok session => exact .inr (access_deliverNews _)
    · split
      · exact .inr (access_deliverNews _)
      · exact .inl rfl

end Backplane.Access
