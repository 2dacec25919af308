import Backplane.Proofs.Access.Identity

/-!
# `Backplane.Proofs.Access.Credentials`: who is let in by name and password

There are two ways to be let in by a password, the one that the account's hash
was made of and the alternate one, and both end in a search for a live client of
the same user. Whether the search finds one, makes one, or replaces one that has
expired does not matter here: in every case the client that is given back has
just been touched. The main statements:

* `Service.Fits`: the credentials that should be let in.
* `arrive_ok`, `userName_of_arrive`: whoever is identified by name is given a
  client of a user of that name.
* `addCredentials_of_fits`: credentials that fit are let in, and the client that
  is given back is stored with a new lifetime.
* `addCredentials_of_not_fits`: all others are refused, and nothing changes.
* `credentials_decide`: at every moment of every history.
-/

set_option autoImplicit false

namespace Backplane.Access

namespace Service

variable {s : Service} {name password clientId : String} {r : ClientRef} {m : Matching}
  {session : Option String} {user : User}

/-- Credentials fit if there is an account of that name, and its hash is that of
the password, or the password is the alternate one, in either case of its ASCII
letters, of a user who may use it. -/
def Fits (s : Service) (name password : String) : Prop :=
  ∃ account, s.directory.accounts.get? name = some account ∧
    (account.passwordHash = Digest.sha256 password.toUTF8.data.toList ∨
      name ∈ s.settings.magicUsers ∧ s.settings.magicSecret ≠ "" ∧
        Magic.lower password = Text.Hex.encode (Digest.Sha1.hash
          (name ++ "_" ++ s.settings.magicSecret ++ "_"
            ++ s.settings.application).toUTF8.data.toList))

/-- The alternate password is accepted from the listed users, and only if there
is a secret. -/
theorem acceptsMagic_iff : s.acceptsMagic name password = true ↔
    name ∈ s.settings.magicUsers ∧ s.settings.magicSecret ≠ "" ∧
      Magic.lower password = Magic.password name s.settings.magicSecret s.settings.application := by
  simp only [acceptsMagic, Settings.isMagicUser, Magic.verify, Bool.and_eq_true, Bool.not_eq_true',
    String.isEmpty_eq_false_iff, List.contains_iff_mem, beq_iff_eq]
  constructor
  · rintro ⟨⟨hsecret, hlisted⟩, -, hpassword⟩
    exact ⟨hlisted, hsecret, hpassword⟩
  · rintro ⟨hlisted, hsecret, hpassword⟩
    exact ⟨⟨hsecret, hlisted⟩, hsecret, hpassword⟩

/-- Credentials that fit stand for a user of that name. -/
theorem userOfCredentials_of_fits (hdirectory : s.directory.InMemory) (h : s.Fits name password) :
    ∃ user, s.userOfCredentials name password = .ok user ∧ user.name = name := by
  obtain ⟨account, haccount, hpassword⟩ := h
  refine ⟨account.user, ?_, hdirectory.name_of_account haccount⟩
  rw [userOfCredentials_eq hdirectory, haccount]
  exact if_pos (hpassword.imp_right acceptsMagic_iff.mpr)

/-- Credentials that do not fit stand for nobody. -/
theorem userOfCredentials_of_not_fits (hdirectory : s.directory.InMemory)
    (h : ¬ s.Fits name password) :
    s.userOfCredentials name password = .error (.authenticationFailed name) := by
  rw [userOfCredentials_eq hdirectory]
  cases haccount : s.directory.accounts.get? name with
  | none => rfl
  | some account =>
    refine if_neg fun hpassword => h ⟨account, haccount, ?_⟩
    exact hpassword.imp_right acceptsMagic_iff.mp

/-- Credentials that do not fit are refused, and nothing changes. -/
theorem addCredentials_of_not_fits (hdirectory : s.directory.InMemory)
    (h : ¬ s.Fits name password) (clientId : String) :
    s.addCredentials name password clientId = (.error (.authenticationFailed name), s) := by
  rw [addCredentials, userOfCredentials_of_not_fits hdirectory h]

/-- Whoever is identified is given a client, if the directory answers. -/
theorem arrive_ok (hs : s.Sorted) (hdirectory : s.directory.InMemory) {a : Arrival}
    (hidentify : s.identify a = .ok (m, session, user)) (clientId : String) :
    ∃ r, (s.arrive clientId a).1 = .ok r := by
  have hadmits := arrive_admits hs.ascending clientId a
  generalize s.arrive clientId a = outcome at hadmits
  cases hadmits with
  | refused e hno =>
    obtain ⟨rights, hrights⟩ := hdirectory.rights_ok user
    rw [hno m session user hidentify] at hrights
    cases hrights
  | found => exact ⟨_, rfl⟩
  | stored => exact ⟨_, rfl⟩

/-- Whoever is identified by name is given a client of a user of that name, whether
it is a new one or not. -/
theorem userName_of_arrive (hs : s.Sorted) {a : Arrival}
    (hidentify : s.identify a = .ok (.userName, session, user))
    (hok : (s.arrive clientId a).1 = .ok r) :
    ∃ c, (s.arrive clientId a).2.record? r = some c ∧ c.user.name = user.name := by
  have hadmits := arrive_admits hs.ascending clientId a
  generalize houtcome : s.arrive clientId a = outcome at hadmits hok
  cases hadmits with
  | refused => cases hok
  | @found _ _ _ _ e c hidentify' _ _ hrecord htest =>
    cases hok
    rw [hidentify] at hidentify'
    cases hidentify'
    obtain ⟨c', hc', hsame⟩ := record_after s (.arrive clientId a) hrecord
    have hname : c.user.name = user.name := eq_of_beq htest
    refine ⟨c', ?_, by rw [hsame.user_eq, hname]⟩
    rw [← houtcome]
    exact hc'
  | stored hidentify' _ hissues _ _ _ =>
    cases hok
    rw [hidentify] at hidentify'
    cases hidentify'
    obtain ⟨c, hc, _, _, rfl⟩ := hissues.made
    exact ⟨c, hc, rfl⟩

/-- Credentials that fit are let in, as a client of a user of that name that has
just been touched. -/
theorem addCredentials_of_fits (hs : s.Sorted) (hdirectory : s.directory.InMemory)
    (h : s.Fits name password) (clientId : String) :
    ∃ r c, (s.addCredentials name password clientId).1 = .ok r ∧
      (s.addCredentials name password clientId).2.record? r = some c ∧ c.user.name = name ∧
      (s.addCredentials name password clientId).2.clients.slot? c.clientId
        = some ⟨r, Cache.deadline s.clients.ttl s.clock⟩ := by
  obtain ⟨user, huser, rfl⟩ := userOfCredentials_of_fits hdirectory h
  have hidentify : s.identify (.credentials user.name password) = .ok (.userName, none, user) := by
    simp only [identify, huser]
  obtain ⟨r, hok⟩ := arrive_ok hs hdirectory hidentify clientId
  have htouches : s.Touches (.arrive clientId (.credentials user.name password)) r := hok
  obtain ⟨c, hc, hname⟩ := userName_of_arrive hs hidentify hok
  obtain ⟨c', hc', hslot⟩ := slot?_of_touches hs htouches
  obtain rfl : c = c' := Option.some.inj (hc.symm.trans hc')
  exact ⟨r, c, hok, hc, hname, hslot⟩

/-- A lifetime that has just begun is not over, unless it is empty or begins at
the last time there is. -/
theorem getClient_of_fresh {s s' : Service} {k : String}
    (hslot : s'.clients.slot? k = some ⟨r, Cache.deadline s.clients.ttl s.clock⟩)
    (hclock : s'.clock = s.clock) :
    (s'.getClient k).1 = .ok r ↔ 0 < s.clients.ttl ∧ s.clock.toNat < Cache.lastTime := by
  rw [ok_getClient_iff, hslot, hclock, UInt64.lt_iff_toNat_lt]
  constructor
  · rintro ⟨e, he, hlive, _⟩
    cases he
    have hlt := Cache.isLive_iff.mp hlive
    show 0 < s.clients.ttl.toNat ∧ _
    omega
  · rintro ⟨httl, hlast⟩
    replace httl : 0 < s.clients.ttl.toNat := httl
    exact ⟨_, rfl, Cache.isLive_iff.mpr (by omega), rfl⟩

end Service

/-! ### Histories -/

namespace History

variable {h : History}

/-- In every history in which directories answer, at every moment: a name and a
password are let in if and only if they fit. Who is let in is a client whose user
has that name, and looking its client id up at once gives back this very client,
provided that clients have a lifetime and the clock has not come to its last
time. Who is refused is told so with the name, and nothing has changed. -/
theorem credentials_decide (hmemory : h.InMemory) (n : Nat) (name password clientId : String) :
    ((∃ r, ((h.after n).addCredentials name password clientId).1 = .ok r) ↔
      (h.after n).Fits name password) ∧
    (∀ r s', (h.after n).addCredentials name password clientId = (.ok r, s') →
      ∃ c, s'.record? r = some c ∧ c.user.name = name ∧
        ((s'.getClient c.clientId).1 = .ok r ↔
          0 < (h.after n).clients.ttl ∧ (h.after n).clock.toNat < Cache.lastTime)) ∧
    ∀ e s', (h.after n).addCredentials name password clientId = (.error e, s') →
      e = .authenticationFailed name ∧ s' = h.after n := by
  have hs := sorted_after h n
  have hdirectory := inMemory_after hmemory n
  by_cases hfits : (h.after n).Fits name password
  · obtain ⟨r, c, hok, hc, hname, hslot⟩ :=
      Service.addCredentials_of_fits hs hdirectory hfits clientId
    have hclock : ((h.after n).addCredentials name password clientId).2.clock = (h.after n).clock :=
      Service.clock_step hs.ascending (.arrive clientId (.credentials name password))
    refine ⟨⟨fun _ => hfits, fun _ => ⟨r, hok⟩⟩, ?_, ?_⟩
    · intro r' s' hgiven
      rw [hgiven] at hok hc hslot hclock
      cases hok
      exact ⟨c, hc, hname, Service.getClient_of_fresh hslot hclock⟩
    · intro e s' hrefused
      rw [hrefused] at hok
      cases hok
  · have hrefused := Service.addCredentials_of_not_fits hdirectory hfits clientId
    rw [hrefused]
    refine ⟨⟨?_, fun hfits' => absurd hfits' hfits⟩, ?_, ?_⟩
    · rintro ⟨r, hok⟩
      cases hok
    · intro r s' hgiven
      cases hgiven
    · intro e s' heq
      cases heq
      exact ⟨rfl, rfl⟩

/-- A user with an account, and a listed user without one. -/
def supportHistory : History where
  settings := .trial
  directory := ({} : Directory).add { id := 7, name := "mario" } "pizza" {}
  keys := ⟨[]⟩
  clock := 0
  events := [.arrive "a" (.user { id := 7, name := "mario" })]

theorem credentials_decide_support :
    supportHistory.InMemory ∧
      (∃ r, ((supportHistory.after 1).addCredentials "mario" "pizza" "b").1 = .ok r) ∧
      (supportHistory.after 1).addCredentials "support" "pizza" "b"
        = (.error (.authenticationFailed "support"), supportHistory.after 1) := by
  have hmemory : supportHistory.InMemory := by
    refine ⟨Directory.InMemory.empty.add _ _ _, fun n d he => ?_⟩
    match n with
    | 0 | n + 1 => cases he
  obtain ⟨hmario, _, _⟩ := credentials_decide hmemory 1 "mario" "pizza" "b"
  obtain ⟨hsupport, _, hrefused⟩ := credentials_decide hmemory 1 "support" "pizza" "b"
  refine ⟨hmemory, hmario.mpr ⟨_, rfl, .inl rfl⟩, ?_⟩
  cases houtcome : (supportHistory.after 1).addCredentials "support" "pizza" "b" with
  | mk result s' =>
    cases result with
    | ok r =>
      obtain ⟨account, haccount, _⟩ := hsupport.mp ⟨r, by rw [houtcome]⟩
      cases haccount
    | error e =>
      obtain ⟨rfl, rfl⟩ := hrefused e s' houtcome
      rfl

end History

end Backplane.Access
