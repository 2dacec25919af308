import Backplane.Proofs.Access.Bearer
import Backplane.Proofs.Access.Effect

/-!
# `Backplane.Proofs.Access.Rejection`: what a refused bearer token does

A bearer token is checked in three steps: its signature and address, the client
that it names, and the user of that client. The client is looked up before its
user is compared, and a look-up starts a lifetime anew. So a token that is
refused in the third step has been of use to somebody: the user who took its
client id over lives longer. `MeetsForeigner` says when that can be seen, and
everything else that is refused leaves the service as it was. The main
statements:

* `getClient_of_live`, `getClient_of_dead`, `getClient_of_none`: the whole
  service after a look-up.
* `clientOfToken_of_foreign`: a foreign client is touched, and then refused.
* `refusalSpares_iff`: at every moment of every history, a token that is refused
  changes nothing but an expired client if and only if it does not meet a
  foreign one.
* `not_always_spared`: a token that prolongs the lifetime of somebody else.
-/

set_option autoImplicit false

namespace Backplane.Access

/-- A lifetime that starts anew is the one of before if and only if it ends at the
same time. -/
theorem Cache.refresh_eq_self_iff {ν : Type} {c : Cache String ν} {k : String}
    {e : Cache.Entry ν} {now : UInt64} (hasc : c.table.Ascending) (hentry : c.slot? k = some e) :
    c.refresh k now = c ↔ e.expiresAt = deadline c.ttl now := by
  have hslot := slot?_refresh c k k now
  rw [if_pos rfl, hentry, Option.map_some] at hslot
  constructor
  · intro heq
    rw [heq, hentry] at hslot
    exact congrArg Entry.expiresAt (Option.some.inj hslot)
  · intro hexpires
    have htable : (c.refresh k now).table = c.table := by
      refine Table.ext_get? (hasc.adjust k _) hasc fun k' => ?_
      show (c.refresh k now).slot? k' = c.slot? k'
      by_cases hk : k' = k
      · rw [hk, hslot, hentry, ← hexpires]
      · rw [slot?_refresh, if_neg hk]
    show ({ c with table := (c.refresh k now).table } : Cache String ν) = c
    rw [htable]

namespace Service

variable {s s' : Service} {address token k : String} {r : ClientRef} {e : Cache.Entry ClientRef}
  {c : Client} {claims : Bearer.Claims}

/-! ### Refusals -/

/-- A client whose lifetime is over leaves: its entry is gone, its attributes are
dropped for good, the listeners among them are told, and its departure is
announced. -/
def Evicts (s : Service) (k : String) (s' : Service) : Prop :=
  ∃ e c, s.clients.slot? k = some e ∧ e.isLive s.clock = false ∧ s.record? e.value = some c ∧
    c.clientId = k ∧ s' = { s with
      clients := { s.clients with table := s.clients.table.erase k }
      records := s.records.set e.value c.clear.1
      notices := s.notices ++ c.clear.2
      outbox := s.outbox ++ [⟨false, k, c.user.id, c.user.name, c.session⟩] }

/-- If a token is refused then nothing changes, unless the error is that its
client has expired. Then this client is evicted, and nothing else changes. -/
def RefusalSpares (s : Service) (address token : String) : Prop :=
  ∀ fault s', s.clientOfToken address token = (.error fault, s') →
    s' = s ∨ ∃ k, fault = .tokenExpired k ∧ s.Evicts k s'

/-- The client that claims name is live, and another user's. -/
structure Foreign (s : Service) (claims : Bearer.Claims) (e : Cache.Entry ClientRef) (c : Client) :
    Prop where
  entry_eq : s.clients.slot? claims.clientId = some e
  live : e.isLive s.clock = true
  record_eq : s.record? e.value = some c
  user_ne : c.user.name ≠ claims.user

/-- A token passes the checks of its signature and address, and names a live
client of another user, whom nobody has used at just this moment. -/
def MeetsForeigner (s : Service) (address token : String) : Prop :=
  ∃ claims e c, s.decryptToken address token = .ok claims ∧ s.Foreign claims e c ∧
    ¬ (e.expiresAt = Cache.deadline s.clients.ttl s.clock ∧ c.lastAccess = s.now)

/-! ### Look-ups -/

/-- The service after a use of a live client. -/
def prolong (s : Service) (k : String) (r : ClientRef) : Service :=
  { s with clients := s.clients.refresh k s.clock }.touch r

theorem record?_prolong (s : Service) (k : String) (r r' : ClientRef) :
    (s.prolong k r).record? r'
      = (s.record? r').map fun c => if r = r' then c.touch s.now else c :=
  List.getElem?_modify ..

theorem getClient_of_live (hentry : s.clients.slot? k = some e) (hlive : e.isLive s.clock = true) :
    s.getClient k = (.ok e.value, s.prolong k e.value) := by
  rw [getClient, Cache.get_by_entry, hentry]
  simp only [if_pos hlive]
  rfl

theorem getClient_of_dead (hentry : s.clients.slot? k = some e)
    (hdead : e.isLive s.clock = false) :
    s.getClient k = (.error (.tokenExpired k), discard
      { s with clients := { s.clients with table := s.clients.table.erase k } } e.value) := by
  rw [getClient, Cache.get_by_entry, hentry]
  simp only [hdead, Bool.false_eq_true, if_false]

theorem getClient_of_none (hentry : s.clients.slot? k = none) :
    s.getClient k = (.error (.unknownToken k), s) := by
  rw [getClient, Cache.get_by_entry, hentry]

/-- A look-up evicts a client whose lifetime is over. -/
theorem evicts_of_dead (hs : s.Sorted) (hentry : s.clients.slot? k = some e)
    (hdead : e.isLive s.clock = false) : s.Evicts k (s.getClient k).2 := by
  obtain ⟨c, hc, hid⟩ := hs.filed k e.value (Cache.holds_of_slot? hentry)
  have hsame := c.same_clear
  have hrecord : record? { s with clients := { s.clients with table := s.clients.table.erase k } }
      e.value = some c := hc
  refine ⟨e, c, hentry, hdead, hc, hid, ?_⟩
  rw [getClient_of_dead hentry hdead, discard, hrecord]
  simp only [announce, hsame.clientId_eq, hid, hsame.user_eq, hsame.session_eq]

/-- The records are the same after a use if and only if the client was used at this
moment already. -/
theorem records_prolong_iff (hc : s.record? r = some c) :
    (s.prolong k r).records = s.records ↔ c.lastAccess = s.now := by
  constructor
  · intro heq
    have htouched := record?_prolong s k r r
    rw [record?, heq, hc, Option.map_some, if_pos rfl] at htouched
    replace htouched : some c = some (c.touch s.now) := hc.symm.trans htouched
    exact congrArg Client.lastAccess (Option.some.inj htouched)
  · intro haccess
    refine List.ext_getElem? fun r' => (record?_prolong s k r r').trans ?_
    by_cases hr : r = r'
    · subst hr
      rw [hc, Option.map_some, if_pos rfl, Client.touch, ← haccess]
      exact hc.symm
    · simp only [if_neg hr, Option.map_id']
      rfl

/-- A use is not seen if and only if the client was used at this moment
already. -/
theorem prolong_eq_self_iff (hs : s.Sorted) (hentry : s.clients.slot? k = some e)
    (hc : s.record? e.value = some c) :
    s.prolong k e.value = s ↔
      e.expiresAt = Cache.deadline s.clients.ttl s.clock ∧ c.lastAccess = s.now := by
  rw [← Cache.refresh_eq_self_iff hs.ascending hentry, ← records_prolong_iff hc]
  constructor
  · intro heq
    exact ⟨congrArg Service.clients heq, congrArg Service.records heq⟩
  · rintro ⟨hclients, hrecords⟩
    show ({ s with
      clients := s.clients.refresh k s.clock
      records := (s.prolong k e.value).records } : Service) = s
    rw [hclients, hrecords]

/-! ### Tokens -/

/-- A token of another user's client is refused, but the client has been used. -/
theorem clientOfToken_of_foreign (hdecrypt : s.decryptToken address token = .ok claims)
    (h : s.Foreign claims e c) :
    s.clientOfToken address token = (.error (.invalidToken (.foreignClient claims.user c.user.name)),
      s.prolong claims.clientId e.value) := by
  have hrecord : (s.prolong claims.clientId e.value).record? e.value = some (c.touch s.now) := by
    rw [record?_prolong, h.record_eq, Option.map_some, if_pos rfl]
  rw [clientOfToken, hdecrypt]
  simp only [getClient_of_live h.entry_eq h.live, hrecord]
  exact if_neg h.user_ne

/-- A token that is refused otherwise leaves the service as it was, or evicts an
expired client. -/
theorem refused_of_not_foreign (hs : s.Sorted) (hforeign : ∀ claims e c,
      s.decryptToken address token = .ok claims → ¬ s.Foreign claims e c) {fault : Error}
    (h : s.clientOfToken address token = (.error fault, s')) :
    s' = s ∨ ∃ k, fault = .tokenExpired k ∧ s.Evicts k s' := by
  rw [clientOfToken] at h
  cases hdecrypt : s.decryptToken address token with
  | error e =>
    rw [hdecrypt] at h
    cases h
    exact .inl rfl
  | ok claims =>
    rw [hdecrypt] at h
    simp only at h
    cases hentry : s.clients.slot? claims.clientId with
    | none =>
      rw [getClient_of_none hentry] at h
      cases h
      exact .inl rfl
    | some e =>
      cases hlive : e.isLive s.clock with
      | false =>
        have hevicts := evicts_of_dead hs hentry hlive
        rw [getClient_of_dead hentry hlive] at h hevicts
        cases h
        exact .inr ⟨claims.clientId, rfl, hevicts⟩
      | true =>
        -- the client is live, so it has to be the user's own, and is given back
        obtain ⟨c, hc, _⟩ := hs.filed _ _ (Cache.holds_of_slot? hentry)
        have hown : c.user.name = claims.user := by
          by_contra hne
          exact hforeign claims e c hdecrypt ⟨hentry, hlive, hc, hne⟩
        rw [getClient_of_live hentry hlive] at h
        simp only [record?_prolong, hc, Option.map_some, if_pos] at h
        rw [if_pos (show (c.touch s.now).user.name = claims.user from hown)] at h
        cases h

/-- A token that is refused changes nothing but an expired client, if and only if
it does not meet a foreign one. -/
theorem refusalSpares_iff_of_sorted (hs : s.Sorted) :
    s.RefusalSpares address token ↔ ¬ s.MeetsForeigner address token := by
  constructor
  · rintro hspares ⟨claims, e, c, hdecrypt, hforeign, hseen⟩
    rcases hspares _ _ (clientOfToken_of_foreign hdecrypt hforeign) with hsame | ⟨k, hfault, _⟩
    · exact hseen ((prolong_eq_self_iff hs hforeign.entry_eq hforeign.record_eq).mp hsame)
    · cases hfault
  · intro hmeets fault s' h
    by_cases hforeign : ∃ claims e c, s.decryptToken address token = .ok claims ∧
        s.Foreign claims e c
    · obtain ⟨claims, e, c, hdecrypt, hforeign⟩ := hforeign
      rw [clientOfToken_of_foreign hdecrypt hforeign] at h
      cases h
      -- the use is not seen
      refine .inl ((prolong_eq_self_iff hs hforeign.entry_eq hforeign.record_eq).mpr ?_)
      by_contra hseen
      exact hmeets ⟨claims, e, c, hdecrypt, hforeign, hseen⟩
    · refine refused_of_not_foreign hs (fun claims e c hdecrypt h => ?_) h
      exact hforeign ⟨claims, e, c, hdecrypt, h⟩

end Service

/-! ### Histories -/

namespace History

/-- At every moment of every history, for every address and every text: a bearer
token that is refused leaves the service as it was, or evicts a client that has
expired and is reported so, if and only if it does not name a live client of
another user than it was made for. If it does, then that client's lifetime starts
anew and the time of its last access is now. -/
theorem refusalSpares_iff (h : History) (n : Nat) (address token : String) :
    ((h.after n).RefusalSpares address token ↔ ¬ (h.after n).MeetsForeigner address token) ∧
    ∀ claims e c, (h.after n).decryptToken address token = .ok claims →
      (h.after n).Foreign claims e c →
      (h.after n).clientOfToken address token
        = (.error (.invalidToken (.foreignClient claims.user c.user.name)), { h.after n with
          clients := (h.after n).clients.refresh claims.clientId (h.after n).clock
          records := (h.after n).records.modify e.value fun c => c.touch (h.after n).now }) :=
  ⟨Service.refusalSpares_iff_of_sorted (sorted_after h n),
    fun _ _ _ => Service.clientOfToken_of_foreign⟩

/-- The claims of a token that outlives its client. -/
def formerClaims : Bearer.Claims := ⟨"a", "mario", "10.0.0.5", 0⟩

/-- A client is removed, and another user takes its client id over. -/
def takeoverHistory : History where
  settings := { tokenTtl := 100 }
  directory := {}
  keys := ⟨List.replicate 32 7⟩
  clock := 0
  events :=
    [.arrive "a" (.user { id := 7, name := "mario" }),
     .remove "a",
     .arrive "a" (.user { id := 9, name := "luigi" }),
     .setClock 60]

/-- A token that is refused prolongs the lifetime of another user's client. -/
theorem not_always_spared : ¬ ∀ (h : History) (n : Nat) (address token : String),
    (h.after n).RefusalSpares address token := by
  intro hspares
  have haccepts : Ed25519.verify takeoverHistory.keys.publicKey formerClaims.payload
      (Ed25519.sign takeoverHistory.keys.seed formerClaims.payload) = true := by decide +kernel
  have hdecode : Bearer.decode takeoverHistory.keys.publicKey
      (Bearer.encode takeoverHistory.keys.seed formerClaims) = .ok formerClaims := by
    -- no blanks around the token
    have hplain : Bearer.decode takeoverHistory.keys.publicKey (String.ofList []
        ++ Bearer.encode takeoverHistory.keys.seed formerClaims ++ String.ofList [])
          = .ok formerClaims :=
      Bearer.decode_encode haccepts (by simp) (by simp)
    simpa using hplain
  have hdecrypt : (takeoverHistory.after 4).decryptToken "10.0.0.5"
      (Bearer.encode takeoverHistory.keys.seed formerClaims) = .ok formerClaims := by
    rw [Service.decryptToken, show (takeoverHistory.after 4).keys = takeoverHistory.keys from rfl,
      hdecode]
    rfl
  have hforeign : (takeoverHistory.after 4).Foreign formerClaims ⟨1, 100⟩
      (.logon "a" none { id := 9, name := "luigi" } {} 0) :=
    ⟨rfl, rfl, rfl, by decide⟩
  refine (Service.refusalSpares_iff_of_sorted (sorted_after takeoverHistory 4)).mp
    (hspares takeoverHistory 4 "10.0.0.5" _) ⟨formerClaims, _, _, hdecrypt, hforeign, fun hseen => ?_⟩
  exact absurd hseen.1 (by decide)

end History

end Backplane.Access
