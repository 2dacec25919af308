import Backplane.Proofs.Access.Effect
import Backplane.Proofs.Access.Sessions

/-!
# `Backplane.Proofs.Access.Logout`: what is left of a session

A logout forgets a session and discards its clients. Afterwards nobody should
get at a client of the session, by whatever call, until the session is announced
again. This rests on one fact about two tables: the clients of a session are
stored only while the session is announced (`vouched_after`). The main
statements:

* `record?_discardAll`: a discard clears the records that it is for.
* `logsOut_registerLogout`: what a logout does to all entries and records.
* `not_touched_of_unregistered`: no call reaches a client of a session that is
  not announced.
* `logout_revokes`: in every history, sessions are announced as long as they
  have clients, and a logout revokes them.
-/

set_option autoImplicit false

namespace Backplane.Access

theorem Client.clear_clear (c : Client) : c.clear.1.clear.1 = c.clear.1 := by
  have hcleared := Service.cleared_clear c
  generalize c.clear.1 = c' at hcleared
  unfold clear
  rw [if_pos hcleared]

namespace Service

variable {s : Service} {r : ClientRef} {session : String}

/-! ### Clients that are discarded -/

theorem record?_discard (s : Service) (r r' : ClientRef) :
    (s.discard r).record? r'
      = if r' = r then (s.record? r).map fun c => c.clear.1 else s.record? r' := by
  unfold discard
  cases hr : s.record? r with
  | none =>
    by_cases heq : r' = r
    · simp [heq, hr]
    · simp [heq]
  | some c =>
    show (s.records.set r c.clear.1)[r']? = _
    obtain ⟨hlt, _⟩ := List.getElem?_eq_some_iff.mp hr
    rw [List.getElem?_set]
    by_cases heq : r' = r
    · simp [heq, hlt]
    · simp [heq, Ne.symm heq, record?]

/-- Clearing a client twice is clearing it once, so it does not matter how often
it is listed. -/
theorem record?_discardAll (s : Service) (rs : List ClientRef) (r : ClientRef) :
    (s.discardAll rs).record? r
      = if r ∈ rs then (s.record? r).map fun c => c.clear.1 else s.record? r := by
  induction rs generalizing s with
  | nil => simp [discardAll]
  | cons r' rest ih =>
    show ((s.discard r').discardAll rest).record? r = _
    rw [ih, record?_discard]
    by_cases heq : r = r'
    · -- It may be listed once more.
      subst heq
      by_cases hrest : r ∈ rest
      · simp [hrest, Function.comp_def, Client.clear_clear]
      · simp [hrest]
    · simp [heq]

/-! ### Logouts -/

/-- A logout gives back the number of the session's clients that are stored,
live or expired. They are taken out and cleared, and every other entry and
record stays. -/
structure LogsOut (s : Service) (session : String) (outcome : Nat × Service) : Prop where
  count_eq : outcome.1
    = (s.clients.contents.filter (s.holds fun c => c.session == some session)).length
  slot?_eq : ∀ k, outcome.2.clients.slot? k
    = (s.clients.slot? k).filter fun e => !s.holds (fun c => c.session == some session) e.value
  cleared : ∀ k r c, s.clients.Holds k r → s.record? r = some c → c.session = some session →
    outcome.2.record? r = some c.clear.1 ∧ c.clear.1.cleared = true
  kept : ∀ r c, s.record? r = some c → c.session ≠ some session → outcome.2.record? r = some c

theorem logsOut_registerLogout (hasc : s.clients.table.Ascending) (session : String) :
    s.LogsOut session (s.registerLogout session) := by
  let gone := (s.clients.removeWhere (s.holds fun c => c.session == some session)).1
  have hgone : gone = s.clients.contents.filter (s.holds fun c => c.session == some session) := by
    show (s.clients.table.values.filter _).map Cache.Entry.value
      = (s.clients.table.values.map Cache.Entry.value).filter _
    rw [List.filter_map]
    rfl
  have hrecord : ∀ r, (s.registerLogout session).2.record? r
      = if r ∈ gone then (s.record? r).map fun c => c.clear.1 else s.record? r :=
    record?_discardAll _ gone
  refine ⟨congrArg List.length hgone, fun k => ?_, fun k r c hk hr hsession => ?_,
    fun r c hr hsession => ?_⟩
  · rw [clients_registerLogout, Cache.slot?_takeEntries hasc]
  · have hmem : r ∈ gone := by
      obtain ⟨e, he, hvalue⟩ := hk
      rw [hgone]
      refine List.mem_filter.mpr ⟨?_, (holds_iff _ _ _).mpr ⟨c, hr, by simp [hsession]⟩⟩
      exact List.mem_map.mpr ⟨e, List.mem_map.mpr ⟨(k, e), he, rfl⟩, hvalue⟩
    rw [hrecord, if_pos hmem, hr]
    exact ⟨rfl, cleared_clear c⟩
  · have hmem : r ∉ gone := by
      intro hmem
      rw [hgone] at hmem
      obtain ⟨c', hc', htest⟩ := (holds_iff _ _ _).mp (List.mem_filter.mp hmem).2
      rw [hr] at hc'
      cases hc'
      exact hsession (eq_of_beq htest)
    rw [hrecord, if_neg hmem, hr]

/-- An event that ends a session logs it out. -/
theorem step_of_logsOut? {e : Event} (h : e.logsOut? = some session) :
    s.step e = (s.registerLogout session).2 := by
  cases e with
  | message m =>
    rw [step_message]
    rcases Event.ofMessage?_cases m with ⟨h', _⟩ | ⟨l, h', _⟩ | ⟨session', h', _⟩ | ⟨h', _⟩
    all_goals simp only [Event.logsOut?, Event.plain?, h'] at h
    all_goals cases h
    rw [h']
    rfl
  | logout session' =>
    cases h
    rfl
  | _ => cases h

/-- A session that is not announced stays so until it is announced. -/
theorem unregistered_step (hnone : s.sessionLogon? session = none) {e : Event}
    (hno : ∀ l, e.logsOn? ≠ some (session, l)) : (s.step e).sessionLogon? session = none := by
  unfold sessionLogon? at hnone ⊢
  cases step_cases s e with
  | keeps h => rw [h.sessions_eq, hnone]
  | issued _ _ _ h => rw [h.sessions_eq, hnone]
  | logon session' l he h =>
    have hne : session ≠ session' := fun heq => hno l (heq ▸ he)
    rw [h]
    show (s.sessions.insert session' l).get? session = none
    rw [Table.get?_insert, if_neg hne, hnone]
  | logout session' h =>
    rw [h, (keeps_registerLogout s session').sessions_eq]
    show (s.sessions.erase session').get? session = none
    rw [Table.get?_erase]
    split
    · rfl
    · exact hnone

theorem addSession_of_unregistered (hnone : s.sessionLogon? session = none) (clientId : String) :
    s.addSession session clientId = (.error (.unknownSession session), s) := by
  have hget : s.sessions.get? session = none := hnone
  unfold addSession
  rw [hget]

/-- No call touches a client of a session that is not announced. -/
theorem not_touched_of_unregistered (hs : s.Sorted) (hvouched : s.Vouched fun _ _ => True)
    (hnone : s.sessionLogon? session = none) {e : Event} (h : s.Touches e r) :
    ∃ c, (s.step e).record? r = some c ∧ c.session ≠ some session := by
  rcases (touches_iff hs e r).mp h with ⟨k, e₀, _, hentry, _, rfl⟩ | ⟨k, hstore⟩
  · -- It is stored, so its session would be announced.
    have hk := Cache.holds_of_slot? hentry
    obtain ⟨c, hc, _⟩ := hs.filed k e₀.value hk
    obtain ⟨c', hc', hsame⟩ := record_after s e hc
    refine ⟨c', hc', fun hsession => ?_⟩
    rw [hsame.session_eq] at hsession
    obtain ⟨l, hl, _⟩ := hvouched k e₀.value c session hk hc hsession
    rw [hnone] at hl
    cases hl
  · -- It is made for an arrival, and one by this session would be refused.
    obtain ⟨a, m, session', user, rfl, hidentify, _, hissues, _⟩ :=
      stored_of_effect hs.ascending hstore
    obtain ⟨c, hc, _, hsession, _⟩ := hissues.made
    refine ⟨c, hc, fun heq => ?_⟩
    rw [hsession] at heq
    subst heq
    rcases identify_cases hidentify with ⟨_, _, hnil⟩ | ⟨_, _, _, hnil⟩ |
      ⟨name, l, _, _, hname, hl, _⟩
    · cases hnil
    · cases hnil
    · cases hname
      rw [show s.sessions.get? session = none from hnone] at hl
      cases hl

end Service

/-! ### Histories -/

namespace History

variable {h : History}

/-- At every moment, the session of every stored client is announced. -/
theorem vouched_after (h : History) (n : Nat) : (h.after n).Vouched fun _ _ => True := by
  refine after_induction ?_ (fun n e _ hvouched => ?_) n
  · exact fun _ _ _ _ hk => absurd hk h.not_holds_after_zero
  · exact hvouched.step (fun _ _ _ => trivial) (filed_after h n) fun _ _ _ _ _ _ _ => trivial

/-- After a logout the session is not announced until its next logon. -/
theorem unregistered_after {i n : Nat} {session : String} {e : Event} (hin : i < n)
    (he : h.events[i]? = some e) (hout : e.logsOut? = some session)
    (hno : ∀ j e l, i < j → j < n → h.events[j]? = some e → e.logsOn? ≠ some (session, l)) :
    (h.after n).sessionLogon? session = none := by
  induction n, hin using Nat.le_induction with
  | base =>
    rw [after_succ he, Service.step_of_logsOut? hout]
    show ((h.after i).registerLogout session).2.sessions.get? session = none
    rw [(Service.keeps_registerLogout (h.after i) session).sessions_eq]
    show ((h.after i).sessions.erase session).get? session = none
    rw [Table.get?_erase, if_pos rfl]
  | succ n hin ih =>
    have hnone := ih fun j e l hij hjn => hno j e l hij (Nat.lt_succ_of_lt hjn)
    cases he' : h.events[n]? with
    | none => rwa [after_of_end he']
    | some e' =>
      rw [after_succ he']
      exact Service.unregistered_step hnone fun l => hno n e' l hin (Nat.lt_succ_self n) he'

/-- In every history, at every moment: the session of every stored client is
announced. A logout gives back the number of the session's clients, takes out
and clears exactly these, and leaves all others. And if a session was logged out
and has not been announced since, no client can be added by it, and no call
gives back a client of it. -/
theorem logout_revokes (h : History) (n : Nat) (session : String) :
    (∀ k r c, (h.after n).clients.Holds k r → (h.after n).record? r = some c →
      c.session = some session → ∃ l, (h.after n).sessionLogon? session = some l) ∧
    (h.after n).LogsOut session ((h.after n).registerLogout session) ∧
    ∀ i e, i < n → h.events[i]? = some e → e.logsOut? = some session →
      (∀ j e l, i < j → j < n → h.events[j]? = some e → e.logsOn? ≠ some (session, l)) →
      (∀ clientId, (h.after n).addSession session clientId
        = (.error (.unknownSession session), h.after n)) ∧
      ∀ e r, (h.after n).Gives e r →
        ∃ c, ((h.after n).step e).record? r = some c ∧ c.session ≠ some session := by
  refine ⟨fun k r c hk hr hsession => ?_,
    Service.logsOut_registerLogout (ascending_after h n) session, fun i e hin he hout hno => ?_⟩
  · obtain ⟨l, hl, _⟩ := vouched_after h n k r c session hk hr hsession
    exact ⟨l, hl⟩
  · have hnone := unregistered_after hin he hout hno
    exact ⟨Service.addSession_of_unregistered hnone, fun e r hgives =>
      Service.not_touched_of_unregistered (sorted_after h n) (vouched_after h n) hnone
        hgives.touches⟩

end History

end Backplane.Access
