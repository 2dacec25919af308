import Backplane.Proofs.Access.Effect

/-!
# `Backplane.Proofs.Access.Forgery`: anti-forgery tokens

An anti-forgery token is issued to a session. It is good for this session until
its lifetime is over or a check uses it up, and no check makes it live longer.
Expired tokens stay stored until a check or a purge takes them out, which nobody
can tell from outside. The main statements:

* `checkCsrf_eq`: what a check answers, and what it does to the tokens.
* `csrf_origin`, `csrf_kept`: what an event does to a token.
* `issued_of_stored`, `stored_of_issued`: the tokens that are stored after a
  history.
* `csrf_good`: in every history, a check answers by when and to whom the token
  was issued, and whether it was used up.
-/

set_option autoImplicit false

namespace Backplane.Access

namespace Service

variable {s : Service} {token k session : String} {consume : Bool} {e : Event}
  {x : Cache.Entry String}

/-! ### Checks -/

/-- A check of a token that is stored leaves it, uses it up, or finds it
expired. -/
theorem checkCsrf_eq (s : Service) (token session : String) (consume : Bool) :
    s.checkCsrf token session consume = match s.csrf.slot? token with
      | none => (.unknownToken, s)
      | some x =>
        let gone := { s with csrf := { s.csrf with table := s.csrf.table.erase token } }
        if x.isLive s.clock then
          if x.value = session then (.valid, if consume then gone else s) else (.sessionMismatch, s)
        else (.unknownToken, gone) := by
  unfold checkCsrf
  rw [Cache.peek_eq]
  cases s.csrf.slot? token with
  | none => rfl
  | some x =>
    cases hlive : x.isLive s.clock with
    | false => simp [hlive]
    | true =>
      by_cases howner : x.value = session
      · cases consume <;> simp [hlive, howner, Cache.remove]
      · simp [hlive, howner]

theorem checkCsrf_valid_iff : (s.checkCsrf token session consume).1 = .valid ↔
    ∃ x, s.csrf.slot? token = some x ∧ x.isLive s.clock = true ∧ x.value = session := by
  rw [checkCsrf_eq]
  cases s.csrf.slot? token with
  | none => simp
  | some x => cases hlive : x.isLive s.clock <;> by_cases howner : x.value = session <;>
      simp [hlive, howner]

theorem checkCsrf_mismatch_iff : (s.checkCsrf token session consume).1 = .sessionMismatch ↔
    ∃ x, s.csrf.slot? token = some x ∧ x.isLive s.clock = true ∧ x.value ≠ session := by
  rw [checkCsrf_eq]
  cases s.csrf.slot? token with
  | none => simp
  | some x => cases hlive : x.isLive s.clock <;> by_cases howner : x.value = session <;>
      simp [hlive, howner]

/-- A check of a token leaves the others. It leaves this one, as it is, if it is
live and not used up. -/
theorem slot?_checkCsrf (s : Service) (token session : String) (consume : Bool) (k : String) :
    (s.checkCsrf token session consume).2.csrf.slot? k = if k = token
      then (s.csrf.slot? k).filter fun x => x.isLive s.clock && !(consume && x.value == session)
      else s.csrf.slot? k := by
  rw [checkCsrf_eq]
  by_cases hk : k = token
  · subst hk
    cases hentry : s.csrf.slot? k with
    | none => simpa using hentry
    | some x =>
      rw [if_pos rfl, Option.filter_some]
      cases hlive : x.isLive s.clock <;> by_cases howner : x.value = session <;> cases consume <;>
        simp [hlive, howner, hentry, Cache.slot?_erase]
  · cases s.csrf.slot? token with
    | none => simp [hk]
    | some x =>
      cases hlive : x.isLive s.clock <;> by_cases howner : x.value = session <;> cases consume <;>
        simp [hlive, howner, hk, Cache.slot?_erase]

/-- A check whose session does not fit changes nothing. -/
theorem checkCsrf_of_mismatch (h : (s.checkCsrf token session consume).1 = .sessionMismatch) :
    (s.checkCsrf token session consume).2 = s := by
  obtain ⟨x, hentry, hlive, howner⟩ := checkCsrf_mismatch_iff.mp h
  rw [checkCsrf_eq, hentry]
  simp [hlive, howner]

/-! ### Events -/

/-- Only issues, checks and purges are about tokens. -/
theorem csrf_step (hasc : s.clients.table.Ascending) (e : Event) :
    (s.step e).csrf = match e.plain? with
      | some (.issueCsrf session random) => (s.csrf.insert (csrfToken random) session s.clock).2
      | some (.checkCsrf token session consume) => (s.checkCsrf token session consume).2.csrf
      | some .purge => (s.csrf.purge s.clock).2
      | _ => s.csrf := by
  show (s.step e).frame.csrf = _
  rw [frame_step hasc]
  cases e.plain? with
  | none => rfl
  | some e => cases e <;> rfl

theorem csrf_checked (s : Service) (token session : String) (consume : Bool) :
    (s.checkCsrf token session consume).2.csrf = s.csrf ∨
      (s.checkCsrf token session consume).2.csrf
        = { s.csrf with table := s.csrf.table.erase token } := by
  rw [checkCsrf_eq]
  cases s.csrf.slot? token with
  | none => exact .inl rfl
  | some x =>
    simp only
    split
    · split
      · cases consume
        · exact .inl rfl
        · exact .inr rfl
      · exact .inl rfl
    · exact .inr rfl

/-- The lifetime of tokens stays, and so does their order. -/
theorem csrf_ttl_step (hasc : s.clients.table.Ascending) (hcsrf : s.csrf.table.Ascending)
    (e : Event) : (s.step e).csrf.ttl = s.csrf.ttl ∧ (s.step e).csrf.table.Ascending := by
  rw [csrf_step hasc]
  cases e.plain? with
  | none => exact ⟨rfl, hcsrf⟩
  | some e =>
    cases e with
    | issueCsrf session random => exact ⟨rfl, Table.ascending_insert hcsrf _ _⟩
    | checkCsrf token session consume =>
      show (s.checkCsrf token session consume).2.csrf.ttl = _ ∧
        (s.checkCsrf token session consume).2.csrf.table.Ascending
      rcases csrf_checked s token session consume with h | h
      · rw [h]
        exact ⟨rfl, hcsrf⟩
      · rw [h]
        exact ⟨rfl, hcsrf.erase token⟩
    | purge => exact ⟨rfl, hcsrf.filter _⟩
    | _ => exact ⟨rfl, hcsrf⟩

/-- The entry of a token after an event. -/
theorem csrf_slot?_step (hasc : s.clients.table.Ascending) (hcsrf : s.csrf.table.Ascending)
    (e : Event) (k : String) : (s.step e).csrf.slot? k = match e.plain? with
      | some (.issueCsrf session random) => if k = csrfToken random
        then some ⟨session, Cache.deadline s.csrf.ttl s.clock⟩ else s.csrf.slot? k
      | some (.checkCsrf token session consume) => if k = token
        then (s.csrf.slot? k).filter fun x => x.isLive s.clock && !(consume && x.value == session)
        else s.csrf.slot? k
      | some .purge => (s.csrf.slot? k).filter fun x => x.isLive s.clock
      | _ => s.csrf.slot? k := by
  rw [csrf_step hasc]
  cases e.plain? with
  | none => rfl
  | some e =>
    cases e with
    | issueCsrf session random => exact Cache.slot?_insert s.csrf _ k session s.clock
    | checkCsrf token session consume => exact slot?_checkCsrf s token session consume k
    | purge =>
      refine (Cache.slot?_takeEntries hcsrf _ k).trans ?_
      simp
    | _ => rfl

/-- A token that is stored after an event was stored before, with the same
lifetime, or the event issues it. -/
theorem csrf_origin (hasc : s.clients.table.Ascending) (hcsrf : s.csrf.table.Ascending)
    (h : (s.step e).csrf.slot? k = some x) : s.csrf.slot? k = some x ∨
      ∃ session random, e = .issueCsrf session random ∧ csrfToken random = k ∧
        x = ⟨session, Cache.deadline s.csrf.ttl s.clock⟩ := by
  rw [csrf_slot?_step hasc hcsrf] at h
  split at h
  · rename_i session random hplain
    split at h
    · rename_i hk
      cases h
      have he := (Event.eq_of_plain? hplain).resolve_right (by simp)
      exact .inr ⟨session, random, he, hk.symm, rfl⟩
    · exact .inl h
  · split at h
    · exact .inl (Option.filter_eq_some_iff.mp h).1
    · exact .inl h
  · exact .inl (Option.filter_eq_some_iff.mp h).1
  · exact .inl h

/-- An event takes a token out if it has expired: it purges, or checks the
token. -/
def SweepsToken (e : Event) (k : String) : Prop :=
  match e.plain? with
  | some .purge => True
  | some (.checkCsrf token _ _) => token = k
  | _ => False

/-- A token stays as it is, unless it is issued once more, used up, or found
expired. -/
theorem csrf_kept (hasc : s.clients.table.Ascending) (hcsrf : s.csrf.table.Ascending)
    (hentry : s.csrf.slot? k = some x) (hlive : SweepsToken e k → x.isLive s.clock = true)
    (hissue : ∀ session random, e = .issueCsrf session random → csrfToken random ≠ k)
    (hcheck : ∀ session, e = .checkCsrf k session true →
      (s.checkCsrf k session true).1 ≠ .valid) : (s.step e).csrf.slot? k = some x := by
  rw [csrf_slot?_step hasc hcsrf]
  unfold SweepsToken at hlive
  split
  · rename_i session random hplain
    have he := (Event.eq_of_plain? hplain).resolve_right (by simp)
    rw [if_neg fun hk => hissue session random he hk.symm]
    exact hentry
  · rename_i token session consume hplain
    rw [hplain] at hlive
    split
    · rename_i hk
      subst hk
      replace hlive := hlive rfl
      have he := (Event.eq_of_plain? hplain).resolve_right (by simp)
      have hunused : (consume && x.value == session) = false := by
        rw [← Bool.not_eq_true, Bool.and_eq_true, beq_iff_eq]
        rintro ⟨rfl, howner⟩
        exact hcheck session he (checkCsrf_valid_iff.mpr ⟨x, hentry, hlive, howner⟩)
      rw [hentry, Option.filter_some, hlive, hunused]
      rfl
    · exact hentry
  · rename_i hplain
    rw [hplain] at hlive
    simp [hentry, hlive]
  · exact hentry

/-- A token that a check has used up is gone. -/
theorem csrf_consumed (h : (s.checkCsrf k session true).1 = .valid) :
    (s.checkCsrf k session true).2.csrf.slot? k = none := by
  obtain ⟨x, hentry, hlive, howner⟩ := checkCsrf_valid_iff.mp h
  rw [slot?_checkCsrf, if_pos rfl, hentry]
  simp [howner]

end Service

/-! ### Histories -/

namespace History

variable {h : History} {i j n : Nat} {token owner session : String} {x : Cache.Entry String}

/-- Event `i` issues a token to a session. -/
def IssuedAt (h : History) (i : Nat) (token session : String) : Prop :=
  ∃ random, h.events[i]? = some (.issueCsrf session random) ∧ csrfToken random = token

/-- No token is issued twice. -/
def DistinctTokens (h : History) : Prop :=
  ∀ i j token session session', h.IssuedAt i token session → h.IssuedAt j token session' → i = j

/-- Event `j` is a check that a token passes and is used up by. -/
def ConsumedAt (h : History) (j : Nat) (token : String) : Prop :=
  ∃ session, h.events[j]? = some (.checkCsrf token session true) ∧
    ((h.after j).checkCsrf token session true).1 = .valid

/-- The end of the lifetime of a token that event `i` issues. -/
def csrfExpiry (h : History) (i : Nat) : Nat :=
  min ((h.after i).clock.toNat + h.settings.csrfTtl % 2 ^ 64) Cache.lastTime

/-- A token is good for a session: it was issued to this session, its lifetime
is not over, and it was not used up. -/
def GoodFor (h : History) (n : Nat) (token session : String) : Prop :=
  (∃ i, i < n ∧ h.IssuedAt i token session ∧ (h.after n).clock.toNat < h.csrfExpiry i) ∧
    ∀ j, j < n → ¬ h.ConsumedAt j token

theorem csrf_ascending_after (h : History) (n : Nat) : (h.after n).csrf.table.Ascending :=
  after_induction (motive := fun s => s.csrf.table.Ascending) Table.ascending_empty
    (fun n e _ ih => (Service.csrf_ttl_step (ascending_after h n) ih e).2) n

/-- The lifetime of tokens is the one of the settings, cut to 64 bits. -/
theorem csrf_ttl_after (h : History) (n : Nat) :
    (h.after n).csrf.ttl = .ofNat h.settings.csrfTtl :=
  after_induction (motive := fun s => s.csrf.ttl = .ofNat h.settings.csrfTtl) rfl
    (fun n e _ ih =>
      (Service.csrf_ttl_step (ascending_after h n) (csrf_ascending_after h n) e).1.trans ih) n

/-- The entry of a token that event `i` issues. -/
def tokenEntry (h : History) (i : Nat) (owner : String) : Cache.Entry String :=
  ⟨owner, Cache.deadline (.ofNat h.settings.csrfTtl) (h.after i).clock⟩

theorem isLive_tokenEntry (h : History) (i : Nat) (owner : String) (now : UInt64) :
    (h.tokenEntry i owner).isLive now = true ↔ now.toNat < h.csrfExpiry i := by
  unfold tokenEntry csrfExpiry
  rw [Cache.isLive_iff, UInt64.toNat_ofNat']

/-- Every token that is stored was issued, and nothing has changed its entry
since. -/
theorem issued_of_stored (hentry : (h.after n).csrf.slot? token = some x) :
    ∃ i owner, i < n ∧ h.IssuedAt i token owner ∧ x = h.tokenEntry i owner := by
  induction n with
  | zero => cases hentry
  | succ n ih =>
    have hbefore : (h.after n).csrf.slot? token = some x →
        ∃ i owner, i < n + 1 ∧ h.IssuedAt i token owner ∧ x = h.tokenEntry i owner := fun h₀ => by
      obtain ⟨i, owner, hin, hrest⟩ := ih h₀
      exact ⟨i, owner, Nat.lt_succ_of_lt hin, hrest⟩
    cases he : h.events[n]? with
    | none =>
      rw [after_of_end he] at hentry
      exact hbefore hentry
    | some e =>
      rw [after_succ he] at hentry
      rcases Service.csrf_origin (ascending_after h n) (csrf_ascending_after h n) hentry with
        h₀ | ⟨session, random, rfl, htoken, hx⟩
      · exact hbefore h₀
      · rw [csrf_ttl_after] at hx
        exact ⟨n, session, Nat.lt_succ_self n, ⟨random, he, htoken⟩, hx⟩

theorem ConsumedAt.issued (hconsumed : h.ConsumedAt j token) :
    ∃ i owner, i < j ∧ h.IssuedAt i token owner := by
  obtain ⟨session, _, hvalid⟩ := hconsumed
  obtain ⟨x, hentry, _⟩ := Service.checkCsrf_valid_iff.mp hvalid
  obtain ⟨i, owner, hij, hissued, _⟩ := issued_of_stored hentry
  exact ⟨i, owner, hij, hissued⟩

/-- A token that is used up is not stored any more. -/
theorem not_consumed_of_stored (hdistinct : h.DistinctTokens)
    (hentry : (h.after n).csrf.slot? token = some x) (hjn : j < n) :
    ¬ h.ConsumedAt j token := by
  intro hconsumed
  induction n with
  | zero => omega
  | succ n ih =>
    cases he : h.events[n]? with
    | none =>
      rw [after_of_end he] at hentry
      refine ih hentry ?_
      obtain ⟨_, he', _⟩ := hconsumed
      exact Nat.lt_of_le_of_ne (Nat.le_of_lt_succ hjn) fun heq => by rw [heq, he] at he'; cases he'
    | some e =>
      rw [after_succ he] at hentry
      rcases Nat.lt_succ_iff_lt_or_eq.mp hjn with hjn | rfl
      · rcases Service.csrf_origin (ascending_after h n) (csrf_ascending_after h n) hentry with
          h₀ | ⟨session, random, rfl, htoken, _⟩
        · exact ih h₀ hjn
        · -- The event would issue the token once more.
          obtain ⟨i, owner, hij, hissued⟩ := hconsumed.issued
          have heq := hdistinct i n token owner session hissued ⟨random, he, htoken⟩
          omega
      · obtain ⟨session, he', hvalid⟩ := hconsumed
        rw [he] at he'
        cases he'
        rw [show (h.after j).step (.checkCsrf token session true)
          = ((h.after j).checkCsrf token session true).2 from rfl,
          Service.csrf_consumed hvalid] at hentry
        cases hentry

/-- A token is used up once. -/
theorem ConsumedAt.eq (hdistinct : h.DistinctTokens) (hi : h.ConsumedAt i token)
    (hj : h.ConsumedAt j token) : i = j := by
  have hnot : ∀ {i j}, h.ConsumedAt i token → h.ConsumedAt j token → ¬ i < j := by
    rintro i j hi ⟨session, _, hvalid⟩ hij
    obtain ⟨x, hentry, _⟩ := Service.checkCsrf_valid_iff.mp hvalid
    exact not_consumed_of_stored hdistinct hentry hij hi
  have hij := hnot hi hj
  have hji := hnot hj hi
  omega

/-- A token that has just been issued is stored, with a new lifetime. -/
theorem slot?_of_issued (hissued : h.IssuedAt i token owner) :
    (h.after (i + 1)).csrf.slot? token = some (h.tokenEntry i owner) := by
  obtain ⟨random, he, rfl⟩ := hissued
  rw [after_succ he, Service.csrf_slot?_step (ascending_after h i) (csrf_ascending_after h i)]
  simp only [Event.plain?, if_pos, csrf_ttl_after]
  rfl

/-- A token that was issued is stored until its lifetime is over or it is used
up. -/
theorem stored_of_issued (hclock : h.ClockForward) (hdistinct : h.DistinctTokens) (hin : i < n)
    (hissued : h.IssuedAt i token owner) (hlive : (h.after n).clock.toNat < h.csrfExpiry i)
    (hunused : ∀ j, j < n → ¬ h.ConsumedAt j token) :
    (h.after n).csrf.slot? token = some (h.tokenEntry i owner) := by
  induction n, hin using Nat.le_induction with
  | base => exact slot?_of_issued hissued
  | succ n hin ih =>
    -- What is live after the event was live before it.
    have hle := UInt64.le_iff_toNat_le.mp (clock_le_succ hclock n)
    have hlive₀ : (h.after n).clock.toNat < h.csrfExpiry i := by omega
    have hbefore := ih hlive₀ fun j hjn => hunused j (Nat.lt_succ_of_lt hjn)
    cases he : h.events[n]? with
    | none => rwa [after_of_end he]
    | some e =>
      rw [after_succ he]
      refine Service.csrf_kept (ascending_after h n) (csrf_ascending_after h n) hbefore
        (fun _ => (isLive_tokenEntry h i owner _).mpr hlive₀) (fun session random he' htoken => ?_)
        fun session he' hvalid => ?_
      · subst he'
        have heq := hdistinct i n token owner session hissued ⟨random, he, htoken⟩
        omega
      · subst he'
        exact hunused n (Nat.lt_succ_self n) ⟨session, he, hvalid⟩

/-- A token is stored and live exactly if it is good for its session. -/
theorem live_iff_goodFor (hclock : h.ClockForward) (hdistinct : h.DistinctTokens) :
    (∃ x, (h.after n).csrf.slot? token = some x ∧ x.isLive (h.after n).clock = true ∧
      x.value = owner) ↔ h.GoodFor n token owner := by
  constructor
  · rintro ⟨x, hentry, hlive, howner⟩
    obtain ⟨i, owner', hin, hissued, rfl⟩ := issued_of_stored hentry
    obtain rfl : owner' = owner := howner
    exact ⟨⟨i, hin, hissued, (isLive_tokenEntry h i owner' _).mp hlive⟩,
      fun j hjn => not_consumed_of_stored hdistinct hentry hjn⟩
  · rintro ⟨⟨i, hin, hissued, hlive⟩, hunused⟩
    exact ⟨h.tokenEntry i owner, stored_of_issued hclock hdistinct hin hissued hlive hunused,
      (isLive_tokenEntry h i owner _).mpr hlive, rfl⟩

/-- In every history in which the clock never runs back and no token is issued
twice, at every moment: a token passes a check exactly if it is good for the
session that presents it. It is found to be another session's exactly if it is
good for another one, and otherwise it is unknown. A check changes the entry of
no token, except that it may take one out, and changes nothing at all if the
session does not fit. So at most one check uses a token up. -/
theorem csrf_good (hclock : h.ClockForward) (hdistinct : h.DistinctTokens) (n : Nat)
    (token session : String) (consume : Bool) :
    (((h.after n).checkCsrf token session consume).1 = .valid ↔ h.GoodFor n token session) ∧
    (((h.after n).checkCsrf token session consume).1 = .sessionMismatch ↔
      ∃ owner, owner ≠ session ∧ h.GoodFor n token owner) ∧
    (((h.after n).checkCsrf token session consume).1 = .unknownToken ↔
      ∀ owner, ¬ h.GoodFor n token owner) ∧
    (∀ k x, ((h.after n).checkCsrf token session consume).2.csrf.slot? k = some x →
      (h.after n).csrf.slot? k = some x) ∧
    (((h.after n).checkCsrf token session consume).1 = .sessionMismatch →
      ((h.after n).checkCsrf token session consume).2 = h.after n) ∧
    ∀ m, h.ConsumedAt n token → h.ConsumedAt m token → m = n := by
  have hvalid : ((h.after n).checkCsrf token session consume).1 = .valid ↔
      h.GoodFor n token session := by
    rw [Service.checkCsrf_valid_iff, live_iff_goodFor hclock hdistinct]
  have hmismatch : ((h.after n).checkCsrf token session consume).1 = .sessionMismatch ↔
      ∃ owner, owner ≠ session ∧ h.GoodFor n token owner := by
    rw [Service.checkCsrf_mismatch_iff]
    constructor
    · rintro ⟨x, hentry, hlive, howner⟩
      exact ⟨x.value, howner, (live_iff_goodFor hclock hdistinct).mp ⟨x, hentry, hlive, rfl⟩⟩
    · rintro ⟨owner, hne, hgood⟩
      obtain ⟨x, hentry, hlive, rfl⟩ := (live_iff_goodFor hclock hdistinct).mpr hgood
      exact ⟨x, hentry, hlive, hne⟩
  refine ⟨hvalid, hmismatch, ?_, fun k x hentry => ?_, Service.checkCsrf_of_mismatch,
    fun m hn hm => hm.eq hdistinct hn⟩
  · -- There is no fourth answer.
    constructor
    · intro hunknown owner hgood
      by_cases howner : owner = session
      · subst howner
        have hanswer := hvalid.mpr hgood
        rw [hunknown] at hanswer
        cases hanswer
      · have hanswer := hmismatch.mpr ⟨owner, howner, hgood⟩
        rw [hunknown] at hanswer
        cases hanswer
    · intro hno
      cases hanswer : ((h.after n).checkCsrf token session consume).1 with
      | valid => exact absurd (hvalid.mp hanswer) (hno session)
      | sessionMismatch =>
        obtain ⟨owner, _, hgood⟩ := hmismatch.mp hanswer
        exact absurd hgood (hno owner)
      | unknownToken => rfl
  · rw [Service.slot?_checkCsrf] at hentry
    split at hentry
    · exact (Option.filter_eq_some_iff.mp hentry).1
    · exact hentry

/-- A token is presented by another session and then by its own, at the last
moment. -/
def forgeryHistory : History where
  settings := { csrfTtl := 100 }
  directory := {}
  keys := ⟨[]⟩
  clock := 0
  events :=
    [.issueCsrf "s" [],
     .setClock 99,
     .checkCsrf (csrfToken []) "t" true,
     .checkCsrf (csrfToken []) "s" true]

theorem csrf_good_forgeryHistory :
    forgeryHistory.ClockForward ∧ forgeryHistory.DistinctTokens ∧
      ((forgeryHistory.after 3).checkCsrf (csrfToken []) "s" true).1 = .valid ∧
      ((forgeryHistory.after 4).checkCsrf (csrfToken []) "s" true).1 = .unknownToken := by
  have hclock : forgeryHistory.ClockForward := by
    intro n clock he
    match n with
    | 0 | 2 | 3 => cases he
    | 1 =>
      cases he
      decide
    | n + 4 => cases he
  have hfirst : ∀ {i token session}, forgeryHistory.IssuedAt i token session → i = 0 := by
    rintro i token session ⟨random, he, _⟩
    match i with
    | 0 => rfl
    | 1 | 2 | 3 | i + 4 => cases he
  have hdistinct : forgeryHistory.DistinctTokens := fun i j _ _ _ hi hj => by
    rw [hfirst hi, hfirst hj]
  have hgood : forgeryHistory.GoodFor 3 (csrfToken []) "s" := by
    refine ⟨⟨0, by decide, ⟨[], rfl, rfl⟩, by decide⟩, ?_⟩
    rintro j hj ⟨session, he, hvalid⟩
    match j with
    | 0 | 1 => cases he
    | 2 =>
      cases he
      cases hvalid
    | j + 3 => omega
  have hvalid := (csrf_good hclock hdistinct 3 (csrfToken []) "s" true).1.mpr hgood
  obtain ⟨_, _, hunknown, _⟩ := csrf_good hclock hdistinct 4 (csrfToken []) "s" true
  refine ⟨hclock, hdistinct, hvalid, hunknown.mpr fun owner hgood => ?_⟩
  exact hgood.2 3 (by decide) ⟨"s", rfl, hvalid⟩

end History

end Backplane.Access
