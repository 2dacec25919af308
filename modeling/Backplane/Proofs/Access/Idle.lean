import Backplane.Proofs.Access.Effect

/-!
# `Backplane.Proofs.Access.Idle`: how long a client lives that nobody uses

A client is live for one lifetime after its last use. Nothing happens at the
end of it: the client stays stored, and the first look-up or purge after it
takes it out. A history is read backwards here. Given the event that touched a
client last (`Idle`), `slot?_of_idle` tells what is stored under its id, by
what happened since: whether the client was taken out (`Taken`), and whether
somebody looked for it when it had expired (`Swept`). The main statements:

* `slot?_step_of_idle`: what one event does to a client that it does not touch.
* `slot?_of_idle`, `idle_of_slot?`: the entries after a history.
* `idle_lifetime`: in every history, whether a client is given out, reported as
  expired, or unknown, and which clients are live.
-/

set_option autoImplicit false

namespace Backplane.Access

namespace Service

variable {s : Service} {k : String} {r : ClientRef} {e : Event} {e₀ : Cache.Entry ClientRef}

/-- An event takes a client out, whether it has expired or not: by its id, or
with its session. -/
def Takes (s : Service) (e : Event) (k : String) (r : ClientRef) : Prop :=
  match e.plain? with
  | some (.remove k') => k' = k
  | some (.logout session) => s.holds (fun c => c.session == some session) r = true
  | _ => False

/-- An event takes the client of an id out if it has expired: it purges, or
looks the client up. -/
def Sweeps (s : Service) (e : Event) (k : String) : Prop :=
  match e.plain? with
  | some .purge => True
  | some (.look k') => k' = k
  | some (.present address token) =>
    ∃ claims, s.decryptToken address token = .ok claims ∧ claims.clientId = k
  | _ => False

/-- The call of an event reports that the client of an id has expired. -/
def ReportsExpired (s : Service) (e : Event) (k : String) : Prop :=
  match e with
  | .look k' => (s.getClient k').1 = .error (.tokenExpired k)
  | .present address token => (s.clientOfToken address token).1 = .error (.tokenExpired k)
  | _ => False

/-- An arrival leaves a client that it is not given, and in whose place no other
one is stored. -/
theorem slot?_arrive_of_idle (hs : s.Sorted) {clientId : String} {a : Arrival}
    (hentry : s.clients.slot? k = some e₀) (hgiven : (s.arrive clientId a).1 ≠ .ok e₀.value)
    (hstore : ∀ r, s.effect (.arrive clientId a) ≠ .store k r) :
    (s.effect (.arrive clientId a)).slot? s k = some e₀ := by
  have hadmits := arrive_admits hs.ascending clientId a
  simp only [effect, Event.plain?] at hstore ⊢
  generalize s.arrive clientId a = outcome at hadmits hstore hgiven
  cases hadmits with
  | refused _ _ => exact hentry
  | @found _ _ _ k' e' c _ hentry' _ hrecord _ =>
    simp only [hrecord, hs.clientId_eq hentry' hrecord]
    have hk : k ≠ k' := by
      rintro rfl
      rw [hentry] at hentry'
      cases hentry'
      exact hgiven rfl
    simp only [Effect.slot?, if_neg hk, hentry]
  | stored _ _ _ _ _ _ =>
    simp only [record?_length] at hstore ⊢
    have hk : k ≠ clientId := fun heq => hstore _ (by rw [heq])
    simp only [Effect.slot?, if_neg hk, hentry]

/-- A look-up leaves a client, unless it takes it out because it has expired. -/
theorem slot?_lookUp_of_dead {k' : String} (hentry : s.clients.slot? k = some e₀)
    (hdead : k' = k → e₀.isLive s.clock = false) :
    (k' = k ∧ e₀.isLive s.clock = false → (Effect.lookUp k').slot? s k = none) ∧
      (¬ (k' = k ∧ e₀.isLive s.clock = false) → (Effect.lookUp k').slot? s k = some e₀) := by
  simp only [Effect.slot?, hentry]
  by_cases hk : k' = k
  · simp [hk, hdead hk, Cache.Entry.renew?]
  · simp [hk, Ne.symm hk]

/-- A client that is not touched, and in whose place no other one is stored,
stays as it is unless the event takes it out. -/
theorem slot?_step_of_idle (hs : s.Sorted) (hentry : s.clients.slot? k = some e₀)
    (huntouched : ¬ s.Touches e e₀.value) (hstore : ∀ r, s.effect e ≠ .store k r) :
    (s.Takes e k e₀.value ∨ s.Sweeps e k ∧ e₀.isLive s.clock = false →
      (s.step e).clients.slot? k = none) ∧
    (¬ (s.Takes e k e₀.value ∨ s.Sweeps e k ∧ e₀.isLive s.clock = false) →
      (s.step e).clients.slot? k = some e₀) := by
  -- A look-up finds it expired, since it would touch it otherwise.
  have hdead : s.effect e = .lookUp k → e₀.isLive s.clock = false := by
    intro heffect
    by_contra hlive
    rw [Bool.not_eq_false] at hlive
    exact huntouched ((touches_iff hs e _).mpr (.inl ⟨k, e₀, heffect, hentry, hlive, rfl⟩))
  have harrive : ∀ clientId a, e.plain? = some (.arrive clientId a) →
      (s.effect e).slot? s k = some e₀ := by
    intro clientId a hplain
    obtain rfl := (Event.eq_of_plain? hplain).resolve_right (by simp)
    exact slot?_arrive_of_idle hs hentry huntouched hstore
  rw [slot?_step hs]
  unfold effect at hdead harrive ⊢
  unfold Takes Sweeps
  generalize e.plain? = plain at hdead harrive ⊢
  cases plain with
  | none => simp [Effect.slot?, hentry]
  | some e =>
    cases e with
    | arrive clientId a => simpa using harrive clientId a rfl
    | look clientId => simpa using slot?_lookUp_of_dead hentry (by simpa using hdead)
    | present address token =>
      simp only at hdead ⊢
      cases hdecrypt : s.decryptToken address token with
      | error e => simp [Effect.slot?, hentry]
      | ok claims => simpa using slot?_lookUp_of_dead hentry (by simpa [hdecrypt] using hdead)
    | remove clientId =>
      by_cases hk : clientId = k
      · simp [Effect.slot?, hk]
      · simp [Effect.slot?, hentry, hk, Ne.symm hk]
    | logout session => simp [Effect.slot?, hentry]
    | purge => simp [Effect.slot?, hentry]
    | _ => simp [Effect.slot?, hentry]

/-- An id that stands for nobody does so until a client is stored under it. -/
theorem slot?_step_eq_none (hs : s.Sorted) (hentry : s.clients.slot? k = none)
    (hstore : ∀ r, s.effect e ≠ .store k r) : (s.step e).clients.slot? k = none := by
  rw [slot?_step hs, Option.eq_none_iff_forall_ne_some]
  intro e' h
  cases Effect.origin h with
  | kept h => rw [hentry] at h; cases h
  | renewed h _ _ _ => rw [hentry] at h; cases h
  | stored r h _ => exact hstore r h

theorem decryptToken_ne_expired (s : Service) (address token k : String) :
    s.decryptToken address token ≠ .error (.tokenExpired k) := by
  unfold decryptToken Bearer.Claims.checkAddress
  cases Bearer.decode s.keys.publicKey token with
  | error fault => simp [Except.mapError, bind, Except.bind]
  | ok claims =>
    by_cases hadmits : claims.admits address = true
    · simp [Except.mapError, bind, Except.bind, pure, Except.pure, hadmits]
    · simp [Except.mapError, bind, Except.bind, hadmits]

/-- Who reports that a client has expired finds it so and takes it out. -/
theorem ReportsExpired.expired (h : s.ReportsExpired e k) :
    s.effect e = .lookUp k ∧
      ∃ e₀, s.clients.slot? k = some e₀ ∧ e₀.isLive s.clock = false := by
  cases e with
  | look k' =>
    obtain ⟨rfl, hentry⟩ := (expired_getClient_iff s k' k).mp h
    exact ⟨rfl, hentry⟩
  | present address token =>
    replace h : (s.clientOfToken address token).1 = .error (.tokenExpired k) := h
    have hnot := decryptToken_ne_expired s address token k
    unfold clientOfToken at h
    cases hdecrypt : s.decryptToken address token with
    | error e =>
      simp only [hdecrypt] at h
      cases h
      exact absurd hdecrypt hnot
    | ok claims =>
      simp only [hdecrypt] at h
      have hget : (s.getClient claims.clientId).1 = .error (.tokenExpired k) := by
        rcases hresult : s.getClient claims.clientId with ⟨e | r, s'⟩
        · simpa [hresult] using h
        · simp only [hresult] at h
          split at h
          · cases h
          · split at h <;> cases h
      obtain ⟨rfl, hentry⟩ := (expired_getClient_iff s _ k).mp hget
      exact ⟨by simp [effect, Event.plain?, hdecrypt], hentry⟩
  | _ => exact h.elim

end Service

/-! ### Histories -/

namespace History

variable {h : History} {i j n m : Nat} {k : String} {r : ClientRef}

/-- Between the events `i` and `n` there is one with a property. -/
def Between (h : History) (i n : Nat) (P : Nat → Event → Prop) : Prop :=
  ∃ j e, i < j ∧ j < n ∧ h.events[j]? = some e ∧ P j e

theorem between_succ {P : Nat → Event → Prop} (hin : i < n) :
    h.Between i (n + 1) P ↔ h.Between i n P ∨ ∃ e, h.events[n]? = some e ∧ P n e := by
  constructor
  · rintro ⟨j, e, hij, hjn, he, hP⟩
    rcases Nat.lt_succ_iff_lt_or_eq.mp hjn with hjn | rfl
    · exact .inl ⟨j, e, hij, hjn, he, hP⟩
    · exact .inr ⟨e, he, hP⟩
  · rintro (⟨j, e, hij, hjn, he, hP⟩ | ⟨e, he, hP⟩)
    · exact ⟨j, e, hij, Nat.lt_succ_of_lt hjn, he, hP⟩
    · exact ⟨n, e, hin, Nat.lt_succ_self n, he, hP⟩

theorem not_between_succ_self {P : Nat → Event → Prop} : ¬ h.Between i (i + 1) P := by
  rintro ⟨j, _, hij, hj, _⟩
  omega

/-- The lifetime of clients in milliseconds, of which the service keeps 64
bits. -/
def lifetime (h : History) : Nat := h.settings.tokenTtl % 2 ^ 64

/-- The end of the lifetime that starts with event `i`. -/
def expiry (h : History) (i : Nat) : Nat :=
  min ((h.after i).clock.toNat + h.lifetime) Cache.lastTime

/-- Event `i` touched the client `r` with the id `k`. It was not touched again
before event `n`, and no other client was made under its id. -/
structure Idle (h : History) (i n : Nat) (k : String) (r : ClientRef) : Prop where
  lt : i < n
  touched : ∃ e, h.events[i]? = some e ∧ (h.after i).Touches e r
  clientId : ∃ c, (h.after (i + 1)).record? r = some c ∧ c.clientId = k
  untouched : ∀ j e, i < j → j < n → h.events[j]? = some e → ¬ (h.after j).Touches e r
  unreplaced : ∀ j a r', i < j → j < n → ¬ h.CreatedAt j k a r'

/-- The client was removed or logged out between the events `i` and `n`. -/
def Taken (h : History) (i n : Nat) (k : String) (r : ClientRef) : Prop :=
  h.Between i n fun j e => (h.after j).Takes e k r

/-- Between the events `i` and `n` there was a purge, or a look-up of the client
id, when the lifetime that started with event `i` was over. -/
def Swept (h : History) (i n : Nat) (k : String) : Prop :=
  h.Between i n fun j e => (h.after j).Sweeps e k ∧ h.expiry i ≤ (h.after j).clock.toNat

theorem taken_succ (hin : i < n) : h.Taken i (n + 1) k r ↔
    h.Taken i n k r ∨ ∃ e, h.events[n]? = some e ∧ (h.after n).Takes e k r :=
  between_succ hin

theorem swept_succ (hin : i < n) : h.Swept i (n + 1) k ↔
    h.Swept i n k ∨ ∃ e, h.events[n]? = some e ∧
      (h.after n).Sweeps e k ∧ h.expiry i ≤ (h.after n).clock.toNat :=
  between_succ hin

/-- The entry of a client that event `i` touched. -/
def entryOf (h : History) (i : Nat) (r : ClientRef) : Cache.Entry ClientRef :=
  ⟨r, Cache.deadline (.ofNat h.settings.tokenTtl) (h.after i).clock⟩

@[simp] theorem value_entryOf (h : History) (i : Nat) (r : ClientRef) :
    (h.entryOf i r).value = r := rfl

theorem isLive_entryOf (h : History) (i : Nat) (r : ClientRef) (now : UInt64) :
    (h.entryOf i r).isLive now = true ↔ now.toNat < h.expiry i := by
  unfold entryOf expiry lifetime
  rw [Cache.isLive_iff, UInt64.toNat_ofNat']

theorem not_isLive_entryOf (h : History) (i : Nat) (r : ClientRef) (now : UInt64) :
    (h.entryOf i r).isLive now = false ↔ h.expiry i ≤ now.toNat := by
  rw [← Bool.not_eq_true, isLive_entryOf, Nat.not_lt]

/-- An event stores a client if and only if it is an arrival that it is made
for. -/
theorem created_iff {e : Event} (he : h.events[n]? = some e) :
    (h.after n).effect e = .store k r ↔ ∃ a, h.CreatedAt n k a r := by
  constructor
  · intro heffect
    obtain ⟨a, _, _, _, rfl, _, hresult, hissues, _⟩ :=
      Service.stored_of_effect (ascending_after h n) heffect
    exact ⟨a, ⟨he, hresult⟩, hissues.fresh⟩
  · rintro ⟨a, ⟨he', hresult⟩, hnone⟩
    rw [he] at he'
    cases he'
    simp [Service.effect, Event.plain?, hresult, hnone]

/-- A client that has just been touched is stored, with a new lifetime. -/
theorem slot?_of_touches {e : Event} (he : h.events[i]? = some e)
    (htouches : (h.after i).Touches e r) :
    ∃ c, (h.after (i + 1)).record? r = some c ∧
      (h.after (i + 1)).clients.slot? c.clientId = some (h.entryOf i r) := by
  have hslot := Service.slot?_of_touches (sorted_after h i) htouches
  rwa [← after_succ he, ttl_after] at hslot

/-- What is stored under the id of a client, by what happened since it was
touched. -/
theorem slot?_of_idle (hidle : h.Idle i n k r) :
    (h.Taken i n k r ∨ h.Swept i n k → (h.after n).clients.slot? k = none) ∧
    (¬ (h.Taken i n k r ∨ h.Swept i n k) →
      (h.after n).clients.slot? k = some (h.entryOf i r)) := by
  obtain ⟨hlt, ⟨e, he, htouches⟩, ⟨c, hc, hid⟩, huntouched, hunreplaced⟩ := hidle
  -- On the events since the touch: the id stands for nobody any more, or still for the client
  -- with the lifetime that the touch began.
  induction n, hlt using Nat.le_induction with
  | base =>
    obtain ⟨c', hc', hentry⟩ := slot?_of_touches he htouches
    rw [hc] at hc'
    cases hc'
    rw [hid] at hentry
    exact ⟨fun hgone => (hgone.elim not_between_succ_self not_between_succ_self).elim,
      fun _ => hentry⟩
  | succ n hin ih =>
    obtain ⟨hgone, hthere⟩ := ih (fun j e hij hjn => huntouched j e hij (Nat.lt_succ_of_lt hjn))
      fun j a r' hij hjn => hunreplaced j a r' hij (Nat.lt_succ_of_lt hjn)
    rw [taken_succ hin, swept_succ hin]
    cases he : h.events[n]? with
    | none => simpa [after_of_end he, -not_or] using And.intro hgone hthere
    | some e =>
      have hs := sorted_after h n
      have hstore : ∀ r', (h.after n).effect e ≠ .store k r' := fun r' heffect => by
        obtain ⟨a, hcreated⟩ := (created_iff he).mp heffect
        exact hunreplaced n a r' hin (Nat.lt_succ_self n) hcreated
      rw [after_succ he]
      by_cases hbefore : h.Taken i n k r ∨ h.Swept i n k
      · have hnone := Service.slot?_step_eq_none hs (hgone hbefore) hstore
        refine ⟨fun _ => hnone, fun hnot => absurd ?_ hnot⟩
        exact hbefore.imp .inl .inl
      · obtain ⟨hgoes, hstays⟩ := Service.slot?_step_of_idle hs (hthere hbefore)
          (huntouched n e hin (Nat.lt_succ_self n) he) hstore
        rw [not_isLive_entryOf] at hgoes hstays
        obtain ⟨hnottaken, hnotswept⟩ := not_or.mp hbefore
        simpa [hnottaken, hnotswept, -not_or] using And.intro hgoes hstays

/-- A client stays idle if it is not touched once more, and no other one is made
under its id. -/
theorem Idle.succ (hidle : h.Idle i n k r)
    (huntouched : ∀ e, h.events[n]? = some e → ¬ (h.after n).Touches e r)
    (hunreplaced : ∀ a r', ¬ h.CreatedAt n k a r') : h.Idle i (n + 1) k r := by
  refine ⟨Nat.lt_succ_of_lt hidle.lt, hidle.touched, hidle.clientId, fun j e hij hjn he => ?_,
    fun j a r' hij hjn => ?_⟩
  · rcases Nat.lt_succ_iff_lt_or_eq.mp hjn with hjn | rfl
    · exact hidle.untouched j e hij hjn he
    · exact huntouched e he
  · rcases Nat.lt_succ_iff_lt_or_eq.mp hjn with hjn | rfl
    · exact hidle.unreplaced j a r' hij hjn
    · exact hunreplaced a r'

/-- Every client that is stored was touched by some event. -/
theorem idle_of_slot? {e₀ : Cache.Entry ClientRef}
    (hentry : (h.after n).clients.slot? k = some e₀) : ∃ i, h.Idle i n k e₀.value := by
  induction n generalizing e₀ with
  | zero => cases hentry
  | succ n ih =>
    cases he : h.events[n]? with
    | none =>
      rw [after_of_end he] at hentry
      obtain ⟨i, hidle⟩ := ih hentry
      refine ⟨i, hidle.succ (fun e he' => ?_) fun a r' hcreated => ?_⟩
      · rw [he] at he'
        cases he'
      · rw [hcreated.1.1] at he
        cases he
    | some e =>
      have hs := sorted_after h n
      by_cases htouches : (h.after n).Touches e e₀.value
      · -- It was this event.
        obtain ⟨c, hc, hid⟩ := filed_after h (n + 1) k _ (Cache.holds_of_slot? hentry)
        refine ⟨n, Nat.lt_succ_self n, ⟨e, he, htouches⟩, ⟨c, hc, hid⟩, ?_, ?_⟩
        all_goals
          intros
          omega
      · have htouch := Service.touches_iff hs e e₀.value
        have hafter := hentry
        rw [after_succ he, Service.slot?_step hs] at hafter
        cases Service.Effect.origin hafter with
        | renewed h₀ hlive heffect heq =>
          subst heq
          exact absurd (htouch.mpr (.inl ⟨k, _, heffect, h₀, hlive, rfl⟩)) htouches
        | stored r heffect heq =>
          subst heq
          exact absurd (htouch.mpr (.inr ⟨k, heffect⟩)) htouches
        | kept h₀ =>
          obtain ⟨i, hidle⟩ := ih h₀
          refine ⟨i, hidle.succ (fun e' he' => ?_) fun a r' hcreated => ?_⟩
          · rw [he] at he'
            cases he'
            exact htouches
          · -- A client that is made is stored in its place, and touched.
            have heffect := (created_iff he).mpr ⟨a, hcreated⟩
            rw [heffect] at hafter
            simp only [Service.Effect.slot?, if_pos, Option.some.injEq] at hafter
            subst hafter
            exact absurd (htouch.mpr (.inr ⟨k, heffect⟩)) htouches

/-- An id that stands for nobody does so until a client is made under it. -/
theorem slot?_eq_none_of_le (hle : n ≤ m)
    (hno : ∀ j a r, n ≤ j → j < m → ¬ h.CreatedAt j k a r)
    (hnone : (h.after n).clients.slot? k = none) : (h.after m).clients.slot? k = none := by
  induction m, hle using Nat.le_induction with
  | base => exact hnone
  | succ m hnm ih =>
    have hbefore := ih fun j a r hnj hjm => hno j a r hnj (Nat.lt_succ_of_lt hjm)
    cases he : h.events[m]? with
    | none => rwa [after_of_end he]
    | some e =>
      rw [after_succ he]
      refine Service.slot?_step_eq_none (sorted_after h m) hbefore fun r heffect => ?_
      obtain ⟨a, hcreated⟩ := (created_iff he).mp heffect
      exact hno m a r hnm (Nat.lt_succ_self m) hcreated

/-- What is swept has expired. -/
theorem Swept.expiry_le (hclock : h.ClockForward) (hswept : h.Swept i n k) :
    h.expiry i ≤ (h.after n).clock.toNat := by
  obtain ⟨j, e, _, hjn, _, _, hle⟩ := hswept
  exact hle.trans (UInt64.le_iff_toNat_le.mp (clock_mono hclock (Nat.le_of_lt hjn)))

/-- The answer to a look-up of a client, by what happened since it was
touched. -/
theorem getClient_of_idle (hclock : h.ClockForward) (hidle : h.Idle i n k r) :
    (((h.after n).getClient k).1 = .ok r ↔
      ¬ h.Taken i n k r ∧ (h.after n).clock.toNat < h.expiry i) ∧
    (((h.after n).getClient k).1 = .error (.tokenExpired k) ↔
      ¬ h.Taken i n k r ∧ ¬ h.Swept i n k ∧ h.expiry i ≤ (h.after n).clock.toNat) ∧
    (((h.after n).getClient k).1 = .error (.unknownToken k) ↔
      h.Taken i n k r ∨ h.Swept i n k) := by
  obtain ⟨hgone, hthere⟩ := slot?_of_idle hidle
  rw [Service.ok_getClient_iff, Service.expired_getClient_iff, Service.unknown_getClient_iff]
  by_cases hout : h.Taken i n k r ∨ h.Swept i n k
  · rw [hgone hout]
    have hnotlive : ¬ (¬ h.Taken i n k r ∧ (h.after n).clock.toNat < h.expiry i) := by
      rintro ⟨hnottaken, hlt⟩
      exact Nat.not_le.mpr hlt ((hout.resolve_left hnottaken).expiry_le hclock)
    exact ⟨iff_of_false (by simp) hnotlive,
      iff_of_false (by simp) fun ⟨hnottaken, hnotswept, _⟩ => hout.elim hnottaken hnotswept,
      iff_of_true rfl hout⟩
  · rw [hthere hout]
    obtain ⟨hnottaken, hnotswept⟩ := not_or.mp hout
    refine ⟨?_, ?_, iff_of_false (by simp) hout⟩
    · simp [hnottaken, isLive_entryOf]
    · simp [hnottaken, hnotswept, not_isLive_entryOf]

/-- The live clients are those whose lifetime is not over and that nobody took
out. -/
theorem mem_liveClients_iff (hclock : h.ClockForward) :
    r ∈ (h.after n).liveClients ↔ ∃ i k, h.Idle i n k r ∧ ¬ h.Taken i n k r ∧
      (h.after n).clock.toNat < h.expiry i := by
  rw [Service.mem_liveClients (sorted_after h n)]
  constructor
  · rintro ⟨k, e, hentry, hlive, rfl⟩
    obtain ⟨i, hidle⟩ := idle_of_slot? hentry
    have hgiven := (Service.ok_getClient_iff (h.after n) k e.value).mpr ⟨e, hentry, hlive, rfl⟩
    exact ⟨i, k, hidle, (getClient_of_idle hclock hidle).1.mp hgiven⟩
  · rintro ⟨i, k, hidle, hlive⟩
    obtain ⟨e, hentry⟩ := (Service.ok_getClient_iff _ k r).mp
      ((getClient_of_idle hclock hidle).1.mpr hlive)
    exact ⟨k, e, hentry⟩

/-- In every history in which the clock never runs back, at every moment, for a
client that was touched last at a certain time: it is given out exactly until
its lifetime is over, if nobody took it out. After that it is reported as
expired until a purge or a look-up, and as unknown from then on until a client
is made under its id. So there is at most one such report before that. The
live clients are exactly those that would be given out, each listed once, and a
purge takes out none of them. -/
theorem idle_lifetime (hclock : h.ClockForward) (n : Nat) :
    (∀ i k r, h.Idle i n k r →
      (((h.after n).getClient k).1 = .ok r ↔
        ¬ h.Taken i n k r ∧ (h.after n).clock.toNat < h.expiry i) ∧
      (((h.after n).getClient k).1 = .error (.tokenExpired k) ↔
        ¬ h.Taken i n k r ∧ ¬ h.Swept i n k ∧ h.expiry i ≤ (h.after n).clock.toNat) ∧
      (((h.after n).getClient k).1 = .error (.unknownToken k) ↔
        h.Taken i n k r ∨ h.Swept i n k)) ∧
    (∀ k m, n ≤ m → (∀ j a r, n ≤ j → j < m → ¬ h.CreatedAt j k a r) →
      ((h.after n).getClient k).1 = .error (.unknownToken k) →
      ((h.after m).getClient k).1 = .error (.unknownToken k)) ∧
    (∀ k m e e', n < m → h.events[n]? = some e → h.events[m]? = some e' →
      (h.after n).ReportsExpired e k → (h.after m).ReportsExpired e' k →
      ∃ j a r, n < j ∧ j < m ∧ h.CreatedAt j k a r) ∧
    (∀ r, r ∈ (h.after n).liveClients ↔ ∃ i k, h.Idle i n k r ∧ ¬ h.Taken i n k r ∧
      (h.after n).clock.toNat < h.expiry i) ∧
    (h.after n).liveClients.Nodup ∧
    ∀ e, e.plain? = some .purge → ((h.after n).step e).liveClients = (h.after n).liveClients := by
  have hs := sorted_after h n
  refine ⟨fun i k r => getClient_of_idle hclock, fun k m hle hno hunknown => ?_,
    fun k m e e' hnm he he' hreport hreport' => ?_, fun r => mem_liveClients_iff hclock, ?_,
    fun e hpurge => Service.liveClients_purge (ascending_after h n) hpurge⟩
  · rw [Service.unknown_getClient_iff] at hunknown ⊢
    exact slot?_eq_none_of_le hle hno hunknown
  · by_contra hno
    -- The first report takes the entry out, so the second one finds none.
    obtain ⟨heffect, e₀, hentry, hdead⟩ := hreport.expired
    obtain ⟨_, e₁, hentry', _⟩ := hreport'.expired
    have hnone : (h.after (n + 1)).clients.slot? k = none := by
      rw [after_succ he, Service.slot?_step hs, heffect]
      simp [Service.Effect.slot?, hentry, Cache.Entry.renew?, hdead]
    rw [slot?_eq_none_of_le hnm (fun j a r hnj hjm hcreated => hno ⟨j, a, r, hnj, hjm, hcreated⟩)
      hnone] at hentry'
    cases hentry'
  · exact Cache.nodup_live hs.ascending fun k e k' e' hentry hentry' heq => by
      obtain ⟨c, hc, hid⟩ := hs.filed k e.value (Cache.holds_of_slot? hentry)
      rw [← hid, hs.clientId_eq hentry' (heq ▸ hc)]

/-- A client is looked up one millisecond before its lifetime is over, and again
when the next one is over. -/
def idleHistory : History where
  settings := { tokenTtl := 100 }
  directory := {}
  keys := ⟨[]⟩
  clock := 0
  events :=
    [.arrive "a" (.user { id := 7, name := "mario" }),
     .setClock 99,
     .look "a",
     .setClock 198,
     .purge,
     .setClock 199,
     .look "a"]

theorem idle_lifetime_idleHistory :
    idleHistory.ClockForward ∧ ((idleHistory.after 5).getClient "a").1 = .ok 0 ∧
      ((idleHistory.after 6).getClient "a").1 = .error (.tokenExpired "a") := by
  have hclock : idleHistory.ClockForward := by
    intro n clock he
    match n with
    | 0 | 2 | 4 | 6 => cases he
    | 1 | 3 | 5 =>
      cases he
      decide
    | n + 7 => cases he
  -- Only the purge is about clients, and it comes too early.
  have hevents : ∀ {j e}, 2 < j → j < 6 → idleHistory.events[j]? = some e →
      (e = .purge ∧ (idleHistory.after j).clock = 198) ∨ ∃ clock, e = .setClock clock := by
    intro j e hij hjn he
    match j with
    | 0 | 1 | 2 => omega
    | 3 | 5 =>
      cases he
      exact .inr ⟨_, rfl⟩
    | 4 =>
      cases he
      exact .inl ⟨rfl, rfl⟩
    | j + 6 => omega
  have hidle : ∀ n, 2 < n → n ≤ 6 → idleHistory.Idle 2 n "a" 0 := by
    refine fun n hin hn => ⟨hin, ⟨.look "a", rfl, rfl⟩, ⟨_, rfl, rfl⟩,
      fun j e hij hjn he htouches => ?_, fun j a r hij hjn hcreated => ?_⟩
    · rcases hevents hij (by omega) he with ⟨rfl, _⟩ | ⟨clock, rfl⟩ <;> exact htouches
    · rcases hevents hij (by omega) hcreated.1.1 with ⟨h, _⟩ | ⟨clock, h⟩ <;> cases h
  have hnottaken : ∀ n, n ≤ 6 → ¬ idleHistory.Taken 2 n "a" 0 := by
    rintro n hn ⟨j, e, hij, hjn, he, htakes⟩
    rcases hevents hij (by omega) he with ⟨rfl, _⟩ | ⟨clock, rfl⟩ <;> exact htakes
  have hnotswept : ¬ idleHistory.Swept 2 6 "a" := by
    rintro ⟨j, e, hij, hjn, he, hsweeps, hle⟩
    rcases hevents hij hjn he with ⟨_, hnow⟩ | ⟨clock, rfl⟩
    · rw [hnow] at hle
      exact absurd hle (by decide)
    · exact hsweeps
  obtain ⟨hanswer₅, _⟩ := idle_lifetime hclock 5
  obtain ⟨hanswer₆, _⟩ := idle_lifetime hclock 6
  obtain ⟨hgiven, _⟩ := hanswer₅ 2 "a" 0 (hidle 5 (by decide) (by decide))
  obtain ⟨_, hexpired, _⟩ := hanswer₆ 2 "a" 0 (hidle 6 (by decide) (by decide))
  exact ⟨hclock, hgiven.mpr ⟨hnottaken 5 (by decide), by decide⟩,
    hexpired.mpr ⟨hnottaken 6 (by decide), hnotswept, by decide⟩⟩

end History

end Backplane.Access
