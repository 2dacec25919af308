import Backplane.Node.Settings
import Backplane.Proofs.Access.Forgery
import Backplane.Proofs.Access.Idle

/-!
# `Backplane.Proofs.Access.Lifetime`: lifetimes as they are configured

A lifetime is configured in seconds and kept in milliseconds, of which 64 bits
are left. The end of a lifetime is cut to the last time there is, so nothing is
lost there. But the lifetime itself is cut to its last 64 bits, and a very long
one may be left very short. Here the lifetime that was meant is compared with
what a history gives. An event `Leaves` a client alone if it does not take it
out; the clock may be set to any time meanwhile. The main statements:

* `Leaves.of_clockForward`, `LeavesToken.of_clockForward`: what that means if the
  clock never runs back.
* `Leaves.slot?_succ`, `LeavesToken.slot?_succ`: such an event leaves the client
  or the token with no shorter lifetime.
* `keepsClients_of_lt`, `keepsTokens_of_lt`: lifetimes of less than 2⁶⁴
  milliseconds are kept to their end.
* `not_keepsClients_of_le`, `not_keepsTokens_of_le`: longer ones end early.
* `lifetimes_kept_iff`: the lifetimes of an environment that are kept.
* `not_always_full_lifetime`: a lifetime of many billion years that is over at
  once.
-/

set_option autoImplicit false

namespace Backplane.Access

namespace History

variable {h : History} {i j n L : Nat} {k token session : String} {r : ClientRef} {e : Event}

/-! ### Lifetimes that are meant -/

/-- The end of a lifetime of so many milliseconds that starts with event `i`. -/
def endOf (h : History) (i L : Nat) : Nat := min ((h.after i).clock.toNat + L) Cache.lastTime

/-- Event `j` leaves the client of an id alone, which event `i` gave a lifetime:
it neither removes the client nor puts another one in its place, it does not look
for it after its lifetime, and it does not use it at an earlier time. -/
structure Leaves (h : History) (i L : Nat) (k : String) (r : ClientRef) (j : Nat) (e : Event) :
    Prop where
  untaken : ¬ (h.after j).Takes e k r
  unreplaced : ∀ a r', ¬ h.CreatedAt j k a r'
  timely : (h.after j).Sweeps e k → (h.after j).clock.toNat < h.endOf i L
  forward : (h.after j).Touches e r → (h.after i).clock.toNat ≤ (h.after j).clock.toNat

/-- Event `j` leaves a token alone, which event `i` issued: it neither uses it up
nor issues it once more, and it does not look for it after its lifetime. -/
structure LeavesToken (h : History) (i L : Nat) (token : String) (j : Nat) (e : Event) :
    Prop where
  unconsumed : ¬ h.ConsumedAt j token
  unissued : ∀ session, ¬ h.IssuedAt j token session
  timely : Service.SweepsToken e token → (h.after j).clock.toNat < h.endOf i L

/-- Every client that was authenticated and then left alone is given out until so
many milliseconds have gone by. -/
def KeepsClients (h : History) (L : Nat) : Prop :=
  ∀ i n clientId a r c, i < n → h.GivenAt i clientId a r → (h.after (i + 1)).record? r = some c →
    (∀ j e, i < j → j < n → h.events[j]? = some e → h.Leaves i L c.clientId r j e) →
    (h.after i).clock.toNat ≤ (h.after n).clock.toNat →
    (h.after n).clock.toNat < h.endOf i L → ((h.after n).getClient c.clientId).1 = .ok r

/-- Every token that was issued and then left alone is good until so many
milliseconds have gone by. -/
def KeepsTokens (h : History) (L : Nat) : Prop :=
  ∀ i n token session consume, i < n → h.IssuedAt i token session →
    (∀ j e, i < j → j < n → h.events[j]? = some e → h.LeavesToken i L token j e) →
    (h.after i).clock.toNat ≤ (h.after n).clock.toNat →
    (h.after n).clock.toNat < h.endOf i L →
      ((h.after n).checkCsrf token session consume).1 = .valid

/-- If the clock never runs back then whoever comes before somebody in time is in
time too. -/
theorem clock_lt_endOf (hclock : h.ClockForward) (hjn : j < n)
    (hend : (h.after n).clock.toNat < h.endOf i L) : (h.after j).clock.toNat < h.endOf i L :=
  Nat.lt_of_le_of_lt (UInt64.le_iff_toNat_le.mp (clock_mono hclock (Nat.le_of_lt hjn))) hend

/-- If the clock never runs back then a client is left alone as long as nobody
takes it out or takes its place. -/
theorem Leaves.of_clockForward (hclock : h.ClockForward) (hij : i < j) (hjn : j < n)
    (hend : (h.after n).clock.toNat < h.endOf i L) (huntaken : ¬ (h.after j).Takes e k r)
    (hunreplaced : ∀ a r', ¬ h.CreatedAt j k a r') : h.Leaves i L k r j e :=
  ⟨huntaken, hunreplaced, fun _ => clock_lt_endOf hclock hjn hend,
    fun _ => UInt64.le_iff_toNat_le.mp (clock_mono hclock (Nat.le_of_lt hij))⟩

/-- If the clock never runs back then a token is left alone as long as nobody uses
it up or issues it once more. -/
theorem LeavesToken.of_clockForward (hclock : h.ClockForward) (hjn : j < n)
    (hend : (h.after n).clock.toNat < h.endOf i L) (hunconsumed : ¬ h.ConsumedAt j token)
    (hunissued : ∀ session, ¬ h.IssuedAt j token session) : h.LeavesToken i L token j e :=
  ⟨hunconsumed, hunissued, fun _ => clock_lt_endOf hclock hjn hend⟩

/-! ### Lifetimes that are kept -/

/-- A lifetime that starts later is not over earlier, if nothing of it is lost. -/
theorem endOf_le_entryOf (hL : h.lifetime = L)
    (hle : (h.after i).clock.toNat ≤ (h.after j).clock.toNat) (r : ClientRef) :
    h.endOf i L ≤ (h.entryOf j r).expiresAt.toNat := by
  rw [entryOf, Cache.toNat_deadline, UInt64.toNat_ofNat']
  show min _ _ ≤ min (_ + h.lifetime) _
  omega

/-- An event that leaves a client alone leaves it with a lifetime that is not
shorter than the one that was meant. -/
theorem Leaves.slot?_succ (hleaves : h.Leaves i L k r j e) (he : h.events[j]? = some e)
    (hL : h.lifetime = L) {x : Cache.Entry ClientRef}
    (hentry : (h.after j).clients.slot? k = some x) (hvalue : x.value = r)
    (hend : h.endOf i L ≤ x.expiresAt.toNat) :
    ∃ x', (h.after (j + 1)).clients.slot? k = some x' ∧ x'.value = r ∧
      h.endOf i L ≤ x'.expiresAt.toNat := by
  have hs := sorted_after h j
  subst hvalue
  by_cases htouches : (h.after j).Touches e x.value
  · -- its lifetime starts anew, and not at an earlier time
    have hforward := hleaves.forward htouches
    obtain ⟨c, hc, hid⟩ := hs.filed k x.value (Cache.holds_of_slot? hentry)
    obtain ⟨c', hc', hsame⟩ := Service.record_after _ e hc
    obtain ⟨c'', hc'', hslot⟩ := slot?_of_touches he htouches
    rw [← after_succ he, hc''] at hc'
    cases hc'
    rw [hsame.clientId_eq, hid] at hslot
    exact ⟨_, hslot, rfl, endOf_le_entryOf hL hforward x.value⟩
  · have hlive : (h.after j).Sweeps e k → x.isLive (h.after j).clock = true := by
      intro hsweeps
      have htimely := hleaves.timely hsweeps
      rw [Cache.isLive_iff_lt]
      omega
    have hstays := (Service.slot?_step_of_idle hs hentry htouches fun r' heffect => by
      obtain ⟨a, hcreated⟩ := (created_iff he).mp heffect
      exact hleaves.unreplaced a r' hcreated).2
    refine ⟨x, ?_, rfl, hend⟩
    rw [after_succ he]
    refine hstays ?_
    rintro (htakes | ⟨hsweeps, hdead⟩)
    · exact hleaves.untaken htakes
    · rw [hlive hsweeps] at hdead
      cases hdead

/-- A client that was authenticated and then left alone is stored, with a lifetime
that is not shorter than the one that was meant. -/
theorem slot?_of_leaves (hL : h.lifetime = L) {clientId : String} {a : Service.Arrival} {c : Client}
    (hgiven : h.GivenAt i clientId a r) (hc : (h.after (i + 1)).record? r = some c) (hin : i < n)
    (hleaves : ∀ j e, i < j → j < n → h.events[j]? = some e → h.Leaves i L c.clientId r j e) :
    ∃ x, (h.after n).clients.slot? c.clientId = some x ∧ x.value = r ∧
      h.endOf i L ≤ x.expiresAt.toNat := by
  induction n, hin using Nat.le_induction with
  | base =>
    obtain ⟨c', hc', hslot⟩ := slot?_of_touches hgiven.1 hgiven.2
    rw [hc] at hc'
    cases hc'
    exact ⟨_, hslot, rfl, endOf_le_entryOf hL (Nat.le_refl _) r⟩
  | succ n hin ih =>
    obtain ⟨x, hentry, hvalue, hend⟩ := ih fun j e hij hjn =>
      hleaves j e hij (Nat.lt_succ_of_lt hjn)
    cases he : h.events[n]? with
    | none =>
      rw [after_of_end he]
      exact ⟨x, hentry, hvalue, hend⟩
    | some e =>
      exact (hleaves n e hin (Nat.lt_succ_self n) he).slot?_succ he hL hentry hvalue hend

/-- Clients that are left alone are given out until their lifetime is over, if it
fits 64 bits. -/
theorem keepsClients_of_lt (hlt : h.settings.tokenTtl < 2 ^ 64) :
    h.KeepsClients h.settings.tokenTtl := by
  intro i n clientId a r c hin hgiven hc hleaves _ hend
  obtain ⟨x, hentry, hvalue, hle⟩ :=
    slot?_of_leaves (Nat.mod_eq_of_lt hlt) hgiven hc hin hleaves
  exact (Service.ok_getClient_iff _ _ r).mpr
    ⟨x, hentry, Cache.isLive_iff_lt.mpr (Nat.lt_of_lt_of_le hend hle), hvalue⟩

/-- An event that leaves a token alone leaves it as it is. -/
theorem LeavesToken.slot?_succ (hleaves : h.LeavesToken i L token j e)
    (he : h.events[j]? = some e) {x : Cache.Entry String}
    (hentry : (h.after j).csrf.slot? token = some x) (hend : h.endOf i L ≤ x.expiresAt.toNat) :
    (h.after (j + 1)).csrf.slot? token = some x := by
  rw [after_succ he]
  refine Service.csrf_kept (ascending_after h j) (csrf_ascending_after h j) hentry
    (fun hsweeps => ?_) (fun session random he' htoken => ?_) fun session he' hvalid => ?_
  · have htimely := hleaves.timely hsweeps
    rw [Cache.isLive_iff_lt]
    omega
  · subst he'
    exact hleaves.unissued session ⟨random, he, htoken⟩
  · subst he'
    exact hleaves.unconsumed ⟨session, he, hvalid⟩

/-- A token that was issued and then left alone is stored as it was issued, if its
lifetime fits 64 bits. -/
theorem stored_of_leaves (hL : h.settings.csrfTtl % 2 ^ 64 = L) (hissued : h.IssuedAt i token session)
    (hin : i < n)
    (hleaves : ∀ j e, i < j → j < n → h.events[j]? = some e → h.LeavesToken i L token j e) :
    (h.after n).csrf.slot? token = some (h.tokenEntry i session) := by
  induction n, hin using Nat.le_induction with
  | base => exact slot?_of_issued hissued
  | succ n hin ih =>
    have hentry := ih fun j e hij hjn => hleaves j e hij (Nat.lt_succ_of_lt hjn)
    cases he : h.events[n]? with
    | none => rwa [after_of_end he]
    | some e =>
      refine (hleaves n e hin (Nat.lt_succ_self n) he).slot?_succ he hentry ?_
      rw [tokenEntry, Cache.toNat_deadline, UInt64.toNat_ofNat', hL]
      exact Nat.le_refl _

/-- Tokens that are left alone are good until their lifetime is over, if it fits 64
bits. -/
theorem keepsTokens_of_lt (hlt : h.settings.csrfTtl < 2 ^ 64) :
    h.KeepsTokens h.settings.csrfTtl := by
  intro i n token session consume hin hissued hleaves _ hend
  have hL := Nat.mod_eq_of_lt hlt
  refine Service.checkCsrf_valid_iff.mpr
    ⟨_, stored_of_leaves hL hissued hin hleaves, (isLive_tokenEntry h i session _).mpr ?_, rfl⟩
  rw [csrfExpiry, hL]
  exact hend

/-! ### Lifetimes that are too long -/

/-- A user logs on, a token is issued, and the clock is set to the end of what is
left of a lifetime. -/
def lapsing (settings : Settings) (L : Nat) : History where
  settings
  directory := {}
  keys := ⟨[]⟩
  clock := 0
  events :=
    [.issueCsrf "s" [],
     .arrive "a" (.user { id := 7, name := "mario" }),
     .setClock (.ofNat (L % 2 ^ 64))]

variable {settings : Settings}

theorem clock_lapsing (settings : Settings) (L : Nat) :
    ((lapsing settings L).after 3).clock.toNat = L % 2 ^ 64 := by
  show (UInt64.ofNat (L % 2 ^ 64)).toNat = _
  rw [UInt64.toNat_ofNat', Nat.mod_mod]

/-- What is left of a lifetime that does not fit 64 bits is less than the
lifetime. -/
theorem lapsing_in_time (hle : 2 ^ 64 ≤ L) (hlast : L % 2 ^ 64 ≠ Cache.lastTime) {i : Nat}
    (hi : ((lapsing settings L).after i).clock = 0) :
    ((lapsing settings L).after 3).clock.toNat < (lapsing settings L).endOf i L := by
  rw [clock_lapsing, endOf, hi]
  show _ < min (0 + L) 18446744073709551615
  replace hlast : L % 2 ^ 64 ≠ 18446744073709551615 := hlast
  omega

/-- When what is left of a lifetime has gone by, the entry is not live. -/
theorem not_isLive_lapsing {ν : Type} (settings : Settings) (L : Nat) (v : ν) :
    (⟨v, Cache.deadline (.ofNat L) 0⟩ : Cache.Entry ν).isLive
      ((lapsing settings L).after 3).clock = false := by
  rw [← Bool.not_eq_true, Cache.isLive_iff, clock_lapsing, UInt64.toNat_ofNat']
  show ¬ _ < min (0 + _) _
  omega

/-- Clients whose lifetime does not fit 64 bits are not always given out until it
is over. -/
theorem not_keepsClients_of_le (hle : 2 ^ 64 ≤ settings.tokenTtl)
    (hlast : settings.tokenTtl % 2 ^ 64 ≠ Cache.lastTime) :
    ¬ (lapsing settings settings.tokenTtl).KeepsClients settings.tokenTtl := by
  intro hkeeps
  have hgiven := hkeeps 1 3 "a" (.user { id := 7, name := "mario" }) 0 _ (by decide) ⟨rfl, rfl⟩ rfl
    (fun j e hij hjn he => ?_) ?_ (lapsing_in_time hle hlast rfl)
  · obtain ⟨x, hentry, hlive, _⟩ := (Service.ok_getClient_iff _ _ _).mp hgiven
    cases hentry
    exact Bool.false_ne_true ((not_isLive_lapsing settings settings.tokenTtl _).symm.trans hlive)
  · -- only the clock changes in between
    obtain rfl : j = 2 := by omega
    cases he
    refine ⟨id, fun a r' hcreated => ?_, False.elim, False.elim⟩
    cases hcreated.1.1
  · show 0 ≤ _
    omega

/-- Tokens whose lifetime does not fit 64 bits are not always good until it is
over. -/
theorem not_keepsTokens_of_le (hle : 2 ^ 64 ≤ settings.csrfTtl)
    (hlast : settings.csrfTtl % 2 ^ 64 ≠ Cache.lastTime) :
    ¬ (lapsing settings settings.csrfTtl).KeepsTokens settings.csrfTtl := by
  intro hkeeps
  have hvalid := hkeeps 0 3 (csrfToken []) "s" false (by decide) ⟨[], rfl, rfl⟩
    (fun j e hij hjn he => ?_) ?_ (lapsing_in_time hle hlast rfl)
  · obtain ⟨x, hentry, hlive, _⟩ := Service.checkCsrf_valid_iff.mp hvalid
    cases hentry
    exact Bool.false_ne_true ((not_isLive_lapsing settings settings.csrfTtl _).symm.trans hlive)
  · -- a logon and a change of the clock are about no token
    have hother : (∃ a, e = .arrive "a" a) ∨ ∃ clock, e = .setClock clock := by
      match j with
      | 0 => omega
      | 1 =>
        cases he
        exact .inl ⟨_, rfl⟩
      | 2 =>
        cases he
        exact .inr ⟨_, rfl⟩
      | j + 3 => omega
    refine ⟨?_, ?_, ?_⟩
    · rintro ⟨session, he', _⟩
      rw [he] at he'
      rcases hother with ⟨a, rfl⟩ | ⟨clock, rfl⟩ <;> cases he'
    · rintro session ⟨random, he', _⟩
      rw [he] at he'
      rcases hother with ⟨a, rfl⟩ | ⟨clock, rfl⟩ <;> cases he'
    · rcases hother with ⟨a, rfl⟩ | ⟨clock, rfl⟩ <;> exact False.elim
  · show 0 ≤ _
    omega

/-- Clients are always given out until their lifetime is over if and only if it
fits 64 bits, unless what is left of it is the last time there is. -/
theorem keepsClients_iff (hlast : settings.tokenTtl % 2 ^ 64 ≠ Cache.lastTime) :
    (∀ h : History, h.settings = settings → h.KeepsClients settings.tokenTtl) ↔
      settings.tokenTtl < 2 ^ 64 := by
  constructor
  · intro hkeeps
    by_contra hle
    exact not_keepsClients_of_le (Nat.le_of_not_lt hle) hlast
      (hkeeps (lapsing settings settings.tokenTtl) rfl)
  · rintro hlt h rfl
    exact keepsClients_of_lt hlt

/-- Tokens are always good until their lifetime is over if and only if it fits 64
bits, unless what is left of it is the last time there is. -/
theorem keepsTokens_iff (hlast : settings.csrfTtl % 2 ^ 64 ≠ Cache.lastTime) :
    (∀ h : History, h.settings = settings → h.KeepsTokens settings.csrfTtl) ↔
      settings.csrfTtl < 2 ^ 64 := by
  constructor
  · intro hkeeps
    by_contra hle
    exact not_keepsTokens_of_le (Nat.le_of_not_lt hle) hlast
      (hkeeps (lapsing settings settings.csrfTtl) rfl)
  · rintro hlt h rfl
    exact keepsTokens_of_lt hlt

/-! ### Lifetimes of an environment -/

variable {env : Node.Environment} {seconds : Nat}

theorem tokenTtl_of_seconds (h : env.unsigned? "SIRIO_AUTH_TOKEN_TTL_SECS" = some seconds) :
    (Node.accessOfEnvironment env).tokenTtl = 1000 * seconds := by
  simp only [Node.accessOfEnvironment, h, Option.map_some, Option.getD_some, Nat.mul_comm]

theorem csrfTtl_of_seconds (h : env.unsigned? "SIRIO_AUTH_CSRF_TTL_SECS" = some seconds) :
    (Node.accessOfEnvironment env).csrfTtl = 1000 * seconds := by
  simp only [Node.accessOfEnvironment, h, Option.map_some, Option.getD_some, Nat.mul_comm]

/-- No number of seconds leaves the last time there is. -/
theorem seconds_ne_lastTime (seconds : Nat) : 1000 * seconds % 2 ^ 64 ≠ Cache.lastTime := by
  show _ ≠ 18446744073709551615
  omega

/-- For every environment, and every number of seconds that is read from it as the
lifetime of clients: in every history of a service with these settings, clients
that are left alone are given out until so many seconds have gone by, if and only
if the number of milliseconds fits 64 bits. The same holds for the lifetime of
anti-forgery tokens and the checks that they pass. -/
theorem lifetimes_kept_iff (env : Node.Environment) :
    (∀ seconds, env.unsigned? "SIRIO_AUTH_TOKEN_TTL_SECS" = some seconds →
      ((∀ h : History, h.settings = Node.accessOfEnvironment env →
        h.KeepsClients (1000 * seconds)) ↔ 1000 * seconds < 2 ^ 64)) ∧
    ∀ seconds, env.unsigned? "SIRIO_AUTH_CSRF_TTL_SECS" = some seconds →
      ((∀ h : History, h.settings = Node.accessOfEnvironment env →
        h.KeepsTokens (1000 * seconds)) ↔ 1000 * seconds < 2 ^ 64) := by
  constructor
  · intro seconds hseconds
    have hlast := seconds_ne_lastTime seconds
    rw [← tokenTtl_of_seconds hseconds] at hlast ⊢
    exact keepsClients_iff hlast
  · intro seconds hseconds
    have hlast := seconds_ne_lastTime seconds
    rw [← csrfTtl_of_seconds hseconds] at hlast ⊢
    exact keepsTokens_iff hlast

/-- An environment with 2⁶¹ seconds, which leave no milliseconds. -/
def longEnvironment : Node.Environment :=
  ⟨[("SIRIO_AUTH_TOKEN_TTL_SECS", "2305843009213693952".toUTF8.data.toList)]⟩

/-- Clients that live for 2⁶¹ seconds have expired when they have just been
authenticated. -/
theorem not_always_full_lifetime : ¬ ∀ (env : Node.Environment) (seconds : Nat),
    env.unsigned? "SIRIO_AUTH_TOKEN_TTL_SECS" = some seconds → ∀ h : History,
      h.settings = Node.accessOfEnvironment env → h.KeepsClients (1000 * seconds) := by
  intro hkeeps
  have hseconds : longEnvironment.unsigned? "SIRIO_AUTH_TOKEN_TTL_SECS"
      = some 2305843009213693952 := by
    decide +kernel
  have httl := tokenTtl_of_seconds hseconds
  have hlapses := hkeeps longEnvironment _ hseconds
    (lapsing (Node.accessOfEnvironment longEnvironment) (1000 * 2305843009213693952)) rfl
  rw [← httl] at hlapses
  refine not_keepsClients_of_le ?_ ?_ hlapses
  all_goals
    rw [httl]
    decide

end History

end Backplane.Access
