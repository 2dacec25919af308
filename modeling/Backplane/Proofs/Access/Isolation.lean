import Backplane.Node.Settings
import Backplane.Proofs.Access.History

/-!
# `Backplane.Proofs.Access.Isolation`: anonymous clients among themselves

Anonymous clients all have the same user, so what keeps them apart is
their client ids. A client that was made for an anonymous arrival should
never be given to an arrival with another client id: `Isolated` states
this for a history. The service can break it, because an arrival by
credentials, or of a user whom the caller vouches for, takes any live
client of its user's name, and the anonymous user has a name and an
account as all others have.

The main statements:

* `isolated_iff_no_named_match`: this is the only way to break it. A
  history isolates anonymous clients if and only if no arrival by a user's
  name finds one that was made under another client id. Anonymous arrivals
  and those by a session never do.
* `isolated_of_reserved_name`: so it cannot happen if nobody else arrives
  under the name of the anonymous user.
* `not_always_isolated`: otherwise it happens, with the directory that a
  node makes for itself.
-/

set_option autoImplicit false

namespace Backplane.Access

/-- The user of an account that has just been added can log on. -/
theorem login_add (d : Directory) (user : User) (password : String) (rights : Rights)
    (hanswers : d.outages.login.contains user.name = false) :
    (d.add user password rights).login user.name password = .ok (some user) := by
  have haccount : (d.add user password rights).accounts.get? user.name
      = some ⟨user, passwordHash password, rights⟩ := by
    show (d.accounts.insert user.name _).get? user.name = _
    rw [Table.get?_insert, if_pos rfl]
  unfold Directory.login Directory.ask
  rw [haccount, Option.bind_some, if_pos rfl]
  show (if d.outages.login.contains user.name = true then _ else _) = _
  rw [hanswers]
  rfl

/-- The client that an arrival by its user's name finds. -/
def Service.MeetsByName (s : Service) (a : Service.Arrival) (r : ClientRef) : Prop :=
  ∃ user rights, s.identify a = .ok (.userName, none, user) ∧
    s.directory.rights user = .ok rights ∧
    (s.clients.find s.clock (s.holds fun c => c.user.name == user.name)).1 = some r

/-- An arrival that finds a client by its user's name is given it. -/
theorem Service.MeetsByName.result {s : Service} {a : Service.Arrival} {r : ClientRef}
    (h : s.MeetsByName a r) (clientId : String) : (s.arrive clientId a).1 = .ok r := by
  obtain ⟨user, rights, hidentify, hrights, hfind⟩ := h
  have hfound : (s.findMatch .userName clientId none user).1 = some r := hfind
  exact Service.arrive_of_found hidentify hrights hfound

namespace History

/-- A client that was made for an anonymous arrival is given to no arrival
with another client id. -/
def Isolated (h : History) : Prop :=
  ∀ i n clientId clientId' a r, h.CreatedAt i clientId .anonymous r → i < n →
    h.GivenAt n clientId' a r → clientId' = clientId

/-- No arrival finds by its user's name a client that was made for an
anonymous arrival with another client id. -/
def NoNamedMatch (h : History) : Prop :=
  ∀ i n clientId clientId' a r, h.CreatedAt i clientId .anonymous r → i < n →
    h.events[n]? = some (.arrive clientId' a) → (h.after n).MeetsByName a r → clientId' = clientId

variable {h : History}

/-- The record that is made for an anonymous arrival has its client id, no
session, and the anonymous user. -/
theorem record_of_anonymous {i : Nat} {clientId : String} {r : ClientRef}
    (hcreated : h.CreatedAt i clientId .anonymous r) :
    ∃ c user, (h.after (i + 1)).record? r = some c ∧ c.clientId = clientId ∧ c.session = none ∧
      (h.after i).identify .anonymous = .ok (.clientId, none, user) ∧ c.user = user := by
  obtain ⟨⟨he, hresult⟩, hnew⟩ := hcreated
  have hcases := Service.arrive_cases (h.after i) clientId .anonymous
  rw [after_succ he]
  show ∃ c user, ((h.after i).arrive clientId .anonymous).2.record? r = some c ∧ _
  generalize (h.after i).arrive clientId .anonymous = outcome at hcases hresult
  cases hcases with
  | refused e => cases hresult
  | found rights hidentify _ hfound _ =>
    cases hresult
    -- A record that is found is not new.
    obtain ⟨htest, _⟩ := Service.found_of_findMatch hfound
    obtain ⟨c, hc, _⟩ := (Service.holds_iff _ _ _).mp htest
    rw [hnew] at hc
    cases hc
  | issued rights hidentify _ _ hissues =>
    cases hresult
    obtain ⟨c, hc, hid, hsession, huser⟩ := hissues.made
    rcases Service.identify_cases hidentify with ⟨_, rfl, rfl⟩ | ⟨_, hnot, _⟩ | ⟨_, _, ha, _⟩
    · exact ⟨c, _, hc, hid, hsession, hidentify, huser⟩
    · exact absurd rfl hnot
    · cases ha

/-- In every history, the clients that were made for anonymous arrivals are
given to no arrival with another client id, if and only if no arrival by
credentials or of a user vouched for finds one of them by its user's
name. -/
theorem isolated_iff_no_named_match (h : History) : h.Isolated ↔ h.NoNamedMatch := by
  constructor
  · intro hisolated i n clientId clientId' a r hcreated hin he hmeets
    exact hisolated i n clientId clientId' a r hcreated hin ⟨he, hmeets.result clientId'⟩
  · intro hno i n clientId clientId' a r hcreated hin hgiven
    obtain ⟨c₀, _, hc₀, hid₀, hsession₀, _⟩ := record_of_anonymous hcreated
    obtain ⟨c, hc, hsame⟩ := record_mono hin hc₀
    obtain ⟨he, hresult⟩ := hgiven
    have hcases := Service.arrive_cases (h.after n) clientId' a
    generalize (h.after n).arrive clientId' a = outcome at hcases hresult
    cases hcases with
    | refused e => cases hresult
    | issued rights _ _ _ hissues =>
      -- The record was there before the arrival.
      cases hresult
      have hlt := (List.getElem?_eq_some_iff.mp hc).1
      rw [hissues.ref_eq] at hlt
      exact absurd hlt (Nat.lt_irrefl _)
    | found rights hidentify hrights hfound _ =>
      cases hresult
      obtain ⟨htest, k, hk, hkey⟩ := Service.found_of_findMatch hfound
      obtain ⟨c₁, hc₁, hmatch⟩ := (Service.holds_iff _ _ _).mp htest
      rw [hc] at hc₁
      cases hc₁
      rcases Service.identify_cases hidentify with
        ⟨_, rfl, _⟩ | ⟨_, _, rfl, rfl⟩ | ⟨name, _, _, rfl, rfl, _, _⟩
      · -- By client id: the client is stored under its own.
        obtain ⟨c₂, hc₂, hid⟩ := filed_after h n k r hk
        rw [hc] at hc₂
        cases hc₂
        rw [← hkey rfl, ← hid, hsame.clientId_eq, hid₀]
      · exact hno i n clientId clientId' a r hcreated hin he ⟨_, rights, hidentify, hrights, hfound⟩
      · -- By session: the client has none.
        have hsession : c.session = some name := eq_of_beq hmatch
        rw [hsame.session_eq, hsession₀] at hsession
        cases hsession

/-- If no other arrival is of a user with the name of a user who arrived
anonymously, anonymous clients are isolated. -/
theorem isolated_of_reserved_name (h : History)
    (hreserved : ∀ i n clientId clientId' a r user user',
      h.CreatedAt i clientId .anonymous r →
      (h.after i).identify .anonymous = .ok (.clientId, none, user) →
      h.events[n]? = some (.arrive clientId' a) →
      (h.after n).identify a = .ok (.userName, none, user') → user'.name ≠ user.name) :
    h.Isolated := by
  rw [isolated_iff_no_named_match]
  rintro i n clientId clientId' a r hcreated hin he ⟨user', rights, hidentify', _, hfind⟩
  obtain ⟨c₀, user, hc₀, _, _, hidentify, huser⟩ := record_of_anonymous hcreated
  obtain ⟨c, hc, hsame⟩ := record_mono hin hc₀
  obtain ⟨htest, _⟩ := Cache.holds_of_find hfind
  obtain ⟨c₁, hc₁, hmatch⟩ := (Service.holds_iff _ _ _).mp htest
  rw [hc] at hc₁
  cases hc₁
  have hname : c.user.name = user'.name := eq_of_beq hmatch
  rw [hsame.user_eq, huser] at hname
  exact absurd hname.symm (hreserved i n clientId clientId' a r user user' hcreated hidentify he
    hidentify')

/-- The directory that a node makes for itself lets everybody log on as the
anonymous user, if that user is not declared. -/
theorem login_seedDirectory (s : Node.Settings) {d : Node.UserDecl}
    (hd : s.anonymousDecl? = some d) :
    s.seedDirectory.login d.name d.password = .ok (some d.user) := by
  have houtages : ∀ (ds : List Node.UserDecl) (dir : Directory),
      (ds.foldl Node.UserDecl.addTo dir).outages = dir.outages := by
    intro ds
    induction ds with
    | nil => exact fun _ => rfl
    | cons d rest ih => exact fun dir => ih (d.addTo dir)
  -- The anonymous user is added last.
  have hseed : s.seedDirectory = d.addTo (s.users.foldl Node.UserDecl.addTo {}) := by
    unfold Node.Settings.seedDirectory
    rw [hd, Option.toList_some, List.foldl_append]
    rfl
  rw [hseed]
  refine login_add _ d.user d.password _ ?_
  rw [houtages]
  rfl

/-- One client arrives anonymously, and another one with the credentials of
the anonymous user. -/
def sharedHistory : History where
  settings := {}
  directory := Node.Settings.seedDirectory {}
  keys := ⟨[]⟩
  clock := 0
  events := [.arrive "a" .anonymous, .arrive "b" (.credentials "anonymous" "")]

/-- In this history the second client is given that of the first. -/
theorem not_always_isolated : ¬ ∀ h : History, h.Isolated := by
  intro hall
  have hcreated : sharedHistory.CreatedAt 0 "a" .anonymous 0 := ⟨⟨rfl, rfl⟩, rfl⟩
  have hlogin : (sharedHistory.after 1).directory.login "anonymous" ""
      = .ok (some { id := 0, name := "anonymous" }) := login_seedDirectory {} rfl
  have hmeets : (sharedHistory.after 1).MeetsByName (.credentials "anonymous" "") 0 :=
    ⟨_, {}, Service.identify_credentials hlogin, rfl, rfl⟩
  have hgiven : sharedHistory.GivenAt 1 "b" (.credentials "anonymous" "") 0 :=
    ⟨rfl, hmeets.result "b"⟩
  exact absurd (hall sharedHistory 0 1 "a" "b" _ 0 hcreated (by decide) hgiven) (by decide)

end History

end Backplane.Access
