import Backplane.Proofs.Access.History

/-!
# `Backplane.Proofs.Access.Sessions`: as whom a session logs on

A client that logs on by a session should be the user whom the session
was announced to belong to, at the moment of the logon. `SessionsBelong`
states this for a history. The service can break it, because a logon by a
session takes any live client of that session: when the session is
announced for another user without a logout, the client of the first user
is given out to the second.

The main statements:

* `sessionsBelong_iff_no_takeover`: this is the only way to break it. A
  history keeps sessions apart if and only if no client is given out to
  one session under announcements of two users.
* `Vouched.step`: clients of a session are stored only as long as the session
  is announced.
* `sessionsBelong_of_no_relogon`: it cannot happen if a session is never
  announced for a second user before it is logged out.
* `not_always_sessionsBelong`: otherwise it happens.
-/

set_option autoImplicit false

namespace Backplane.Access

namespace History

/-- Whoever logs on by a session is given a client of that session, and of
the user whom the session belongs to at that moment. -/
def SessionsBelong (h : History) : Prop :=
  ∀ n session clientId r, h.GivenAt n clientId (.session session) r →
    ∃ c l, (h.after (n + 1)).record? r = some c ∧ c.session = some session ∧
      (h.after n).sessionLogon? session = some l ∧ c.user.id = l.userId

/-- No client is given out twice to a session that belonged to one user
first and to another user then. -/
def NoTakeover (h : History) : Prop :=
  ∀ i n session clientId clientId' r l l', i < n →
    h.GivenAt i clientId (.session session) r → h.GivenAt n clientId' (.session session) r →
    (h.after i).sessionLogon? session = some l → (h.after n).sessionLogon? session = some l' →
    l.userId = l'.userId

variable {h : History}

/-- A logon by a session is given a new client, which is the session's user,
or one of the session's clients that are stored. -/
theorem given_session {n : Nat} {session clientId : String} {r : ClientRef}
    (hgiven : h.GivenAt n clientId (.session session) r) :
    ∃ c l, (h.after (n + 1)).record? r = some c ∧ c.session = some session ∧
      (h.after n).sessionLogon? session = some l ∧
      (c.user.id = l.userId ∨ ∃ k c₀, (h.after n).clients.Holds k r ∧
        (h.after n).record? r = some c₀ ∧ c₀.session = some session ∧ c.user = c₀.user) := by
  obtain ⟨he, hresult⟩ := hgiven
  have hcases := Service.arrive_cases (h.after n) clientId (.session session)
  rw [after_succ he]
  show ∃ c l, ((h.after n).arrive clientId (.session session)).2.record? r = some c ∧ _
  generalize (h.after n).arrive clientId (.session session) = outcome at hcases hresult
  cases hcases with
  | refused e => cases hresult
  | issued rights hidentify _ _ hissues =>
    cases hresult
    obtain ⟨l, rfl, rfl, hl, hid⟩ := Service.identify_session hidentify
    obtain ⟨c, hc, _, hsession, huser⟩ := hissues.made
    exact ⟨c, l, hc, hsession, hl, .inl (huser ▸ hid)⟩
  | found rights hidentify _ hfound hkeeps =>
    cases hresult
    obtain ⟨l, rfl, rfl, hl, _⟩ := Service.identify_session hidentify
    obtain ⟨htest, k, hk, _⟩ := Service.found_of_findMatch hfound
    obtain ⟨c₀, hc₀, hmatch⟩ := (Service.holds_iff _ _ _).mp htest
    have hsession : c₀.session = some session := eq_of_beq hmatch
    obtain ⟨c, hc, hsame⟩ := hkeeps.record hc₀
    exact ⟨c, l, hc, hsame.session_eq.trans hsession, hl,
      .inr ⟨k, c₀, hk, hc₀, hsession, hsame.user_eq⟩⟩

/-- A client of a session was given out to the session when it was made, and
is the user whom the session belonged to then. -/
theorem given_of_session {n : Nat} {session : String} {r : ClientRef} {c : Client}
    (hc : (h.after n).record? r = some c) (hsession : c.session = some session) :
    ∃ i clientId l, i < n ∧ h.GivenAt i clientId (.session session) r ∧
      (h.after i).sessionLogon? session = some l ∧ c.user.id = l.userId := by
  obtain ⟨i, clientId, a, m, session', user, hi, ⟨hgiven, _⟩, hidentify, _, hs, hu⟩ :=
    created_of_record hc
  rw [hsession] at hs
  subst hs
  rcases Service.identify_cases hidentify with
    ⟨_, _, hnone⟩ | ⟨_, _, _, hnone⟩ | ⟨name, l, rfl, _, hname, hl, hid⟩
  · cases hnone
  · cases hnone
  · cases hname
    exact ⟨i, clientId, l, hi, hgiven, hl, hu ▸ hid⟩

/-- In every history, each logon by a session is given a client of the
session and of the session's user of that moment, if and only if no client
is given out to one session under announcements of two users. -/
theorem sessionsBelong_iff_no_takeover (h : History) : h.SessionsBelong ↔ h.NoTakeover := by
  constructor
  · intro hbelong i n session clientId clientId' r l l' hin hgiven hgiven' hl hl'
    obtain ⟨c, l₁, hc, _, hl₁, hid⟩ := hbelong i session clientId r hgiven
    obtain ⟨c', l₂, hc', _, hl₂, hid'⟩ := hbelong n session clientId' r hgiven'
    rw [hl] at hl₁
    rw [hl'] at hl₂
    cases hl₁
    cases hl₂
    -- It is the same client both times.
    obtain ⟨c'', hc'', hsame⟩ := record_mono (Nat.succ_le_succ (Nat.le_of_lt hin)) hc
    rw [hc'] at hc''
    cases hc''
    rw [← hid, ← hid', hsame.user_eq]
  · intro hno n session clientId r hgiven
    obtain ⟨c, l, hc, hsession, hl, hid⟩ := given_session hgiven
    refine ⟨c, l, hc, hsession, hl, ?_⟩
    rcases hid with hid | ⟨_, c₀, _, hc₀, hsession₀, huser⟩
    · exact hid
    · -- A stored client was given out to the session before, when it was made.
      obtain ⟨i, clientId₀, l₀, hi, hgiven₀, hl₀, hid₀⟩ := given_of_session hc₀ hsession₀
      rw [huser, hid₀]
      exact hno i n session clientId₀ clientId r l₀ l hi hgiven₀ hgiven hl₀ hl

end History

namespace Service

/-- Each stored client of a session belongs to a session that is announced, and
its user is related to the user whom the session belongs to. -/
def Vouched (R : User → Logon → Prop) (s : Service) : Prop :=
  ∀ k r c session, s.clients.Holds k r → s.record? r = some c → c.session = some session →
    ∃ l, s.sessionLogon? session = some l ∧ R c.user l

/-- Each stored client of a session is the user whom the session belongs
to. -/
def Coherent (s : Service) : Prop :=
  ∀ k r c session, s.clients.Holds k r → s.record? r = some c → c.session = some session →
    ∃ l, s.sessionLogon? session = some l ∧ c.user.id = l.userId

variable {R : User → Logon → Prop}

theorem Keeps.vouched {s s' : Service} (h : s.Keeps s') (hs : s.Vouched R) : s'.Vouched R := by
  intro k r c' session hk hr hsession
  obtain ⟨c, hc, hsame⟩ := h.of_record? hr
  obtain ⟨l, hl, hrel⟩ := hs k r c session (h.clients k r hk) hc (hsame.session_eq ▸ hsession)
  refine ⟨l, ?_, hsame.user_eq ▸ hrel⟩
  unfold sessionLogon?
  rw [h.sessions_eq]
  exact hl

theorem Issues.vouched {s s' : Service} {a : Arrival} {m : Matching} {clientId : String}
    {session : Option String} {user : User} {r : ClientRef}
    (h : s.Issues clientId session user r s') (hidentify : s.identify a = .ok (m, session, user))
    (hR : ∀ (u : User) (l : Logon), u.id = l.userId → R u l) (hfiled : s.Filed)
    (hs : s.Vouched R) : s'.Vouched R := by
  intro k r' c' name hk hr hsession
  show ∃ l, s'.sessions.get? name = some l ∧ _
  rw [h.sessions_eq]
  rcases h.clients k r' hk with ⟨_, rfl⟩ | hold
  · -- The new client is the user whom the session belongs to now.
    obtain ⟨c, hc, _, hsession', huser⟩ := h.made
    rw [hr] at hc
    cases hc
    rw [hsession] at hsession'
    subst hsession'
    rcases identify_cases hidentify with
      ⟨_, _, hnone⟩ | ⟨_, _, _, hnone⟩ | ⟨name', l, _, _, hname, hl, hid⟩
    · cases hnone
    · cases hnone
    · cases hname
      exact ⟨l, hl, huser ▸ hR user l hid⟩
  · obtain ⟨c, hc, _⟩ := hfiled k r' hold
    obtain ⟨c₁, hc₁, hsame⟩ := h.record hc
    rw [hr] at hc₁
    cases hc₁
    obtain ⟨l, hl, hrel⟩ := hs k r' c name hold hc (hsame.session_eq ▸ hsession)
    exact ⟨l, hl, hsame.user_eq ▸ hrel⟩

/-- An event keeps stored clients vouched for, unless it announces a user for a
session whose clients are not related to that user. -/
theorem Vouched.step {s : Service} {e : Event} (hs : s.Vouched R)
    (hR : ∀ (u : User) (l : Logon), u.id = l.userId → R u l) (hfiled : s.Filed)
    (hno : ∀ session l l₀ u, e.logsOn? = some (session, l) → s.sessionLogon? session = some l₀ →
      R u l₀ → R u l) : (s.step e).Vouched R := by
  cases step_cases s e with
  | keeps h => exact h.vouched hs
  | issued _ hidentify _ h => exact h.vouched hidentify hR hfiled hs
  | logon session l he h =>
    rw [h]
    intro k r c session' hk hr hsession
    obtain ⟨l₀, hl₀, hrel⟩ := hs k r c session' hk hr hsession
    show ∃ l', (s.sessions.insert session l).get? session' = some l' ∧ _
    rw [Table.get?_insert]
    split
    · -- The session is announced once more.
      rename_i heq
      exact ⟨l, rfl, hno session l l₀ c.user he (heq ▸ hl₀) hrel⟩
    · exact ⟨l₀, hl₀, hrel⟩
  | logout session h =>
    rw [h]
    intro k r c' session' hk hr hsession
    have hkeeps := keeps_registerLogout s session
    obtain ⟨c, hc, hsame⟩ := hkeeps.of_record? hr
    have hsession₀ : c.session = some session' := hsame.session_eq ▸ hsession
    -- A logout takes the stored clients of its session out, so this one is of another.
    have hne : session' ≠ session := by
      intro heq
      have hgone := not_holds_registerLogout s session hk
      have hthere : s.holds (fun c => c.session == some session) r = true :=
        (holds_iff _ _ _).mpr ⟨c, hc, by rw [hsession₀, heq]; exact beq_self_eq_true _⟩
      rw [hgone] at hthere
      cases hthere
    obtain ⟨l, hl, hrel⟩ := hs k r c session' (hkeeps.clients k r hk) hc hsession₀
    refine ⟨l, ?_, hsame.user_eq ▸ hrel⟩
    show (s.registerLogout session).2.sessions.get? session' = some l
    rw [hkeeps.sessions_eq]
    show (s.sessions.erase session).get? session' = some l
    rw [Table.get?_erase, if_neg hne]
    exact hl

/-- An event keeps stored clients and sessions coherent, unless it announces
another user for a session. -/
theorem coherent_step {s : Service} {e : Event} (hfiled : s.Filed) (hs : s.Coherent)
    (hno : ∀ session l l₀, e.logsOn? = some (session, l) → s.sessionLogon? session = some l₀ →
      l.userId = l₀.userId) : (s.step e).Coherent :=
  Vouched.step (R := fun u l => u.id = l.userId) hs (fun _ _ hid => hid) hfiled
    fun session l l₀ _ he hl₀ hid => hid.trans (hno session l l₀ he hl₀).symm

end Service

namespace History

/-- If no event announces a session for another user than the one whom it
belongs to already, every logon by a session is the session's user. -/
theorem sessionsBelong_of_no_relogon (h : History)
    (hno : ∀ n e session l l₀, h.events[n]? = some e → e.logsOn? = some (session, l) →
      (h.after n).sessionLogon? session = some l₀ → l.userId = l₀.userId) :
    h.SessionsBelong := by
  have hcoherent : ∀ n, (h.after n).Coherent := by
    refine after_induction ?_ fun n e he hcoherent => ?_
    · exact fun _ _ _ _ hk => absurd hk h.not_holds_after_zero
    · exact Service.coherent_step (filed_after h n) hcoherent
        fun session l l₀ => hno n e session l l₀ he
  intro n session clientId r hgiven
  obtain ⟨c, l, hc, hsession, hl, hid⟩ := given_session hgiven
  refine ⟨c, l, hc, hsession, hl, ?_⟩
  rcases hid with hid | ⟨k, c₀, hk, hc₀, hsession₀, huser⟩
  · exact hid
  · obtain ⟨l₀, hl₀, hid₀⟩ := hcoherent n k r c₀ session hk hc₀ hsession₀
    rw [hl] at hl₀
    cases hl₀
    rw [huser]
    exact hid₀

/-- A session is announced for a second user without a logout. -/
def takenOverHistory : History where
  settings := {}
  directory := (({} : Directory).add { id := 7, name := "mario" } "pizza" {}).add
    { id := 9, name := "luigi" } "pasta" {}
  keys := ⟨[]⟩
  clock := 0
  events :=
    [.logon "s" ⟨7, "mario"⟩,
     .arrive "a" (.session "s"),
     .logon "s" ⟨9, "luigi"⟩,
     .arrive "a" (.session "s")]

/-- In this history the second user is given the client of the first. -/
theorem not_always_sessionsBelong : ¬ ∀ h : History, h.SessionsBelong := by
  intro hall
  have hgiven : takenOverHistory.GivenAt 3 "a" (.session "s") 0 := ⟨rfl, rfl⟩
  obtain ⟨c, l, hc, _, hl, hid⟩ := hall takenOverHistory 3 "s" "a" 0 hgiven
  have hclient : ((takenOverHistory.after 4).record? 0).map (fun c => c.user.id) = some 7 := rfl
  have hlogon : (takenOverHistory.after 3).sessionLogon? "s" = some ⟨9, "luigi"⟩ := rfl
  rw [hc] at hclient
  rw [hl] at hlogon
  cases hlogon
  rw [Option.map_some, hid] at hclient
  cases hclient

end History

end Backplane.Access
