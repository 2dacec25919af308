import Backplane.Proofs.Lock.Handover
import Backplane.Proofs.Lock.Script
import Backplane.Proofs.Lock.Without

/-!
# `Backplane.Proofs.Lock.Erasure`: a call that gives up leaves no trace

A call for one resource that runs out of time has waited and done nothing
else. It never had a permit in hand, because a permit in hand stays there
until the call runs, and then it is granted. So the script in which it was
never made has the same answers for everybody else, and from the moment on
at which the call is over the service is the same. The main statements:

* `not_denied_of_hasPermit`: a call with a permit in hand is granted.
* `erased_tracks`: the cues of a call that is denied can be cut.
* `now_of_denied`: under a prompt scheduler, a call is denied when its time
  is up, neither earlier nor later.
* `timed_out_try_leaves_no_trace`: all of it, for whole scripts.
-/

set_option autoImplicit false

namespace Backplane.Lock

/-- Whether a cue is not about the call `d`: it neither begins it nor lets it
run. -/
def Cue.isOther (d : CallId) (c : Cue) : Bool := match c.event with
  | .request _ => decide (c.name ≠ d)
  | .wake name => decide (name ≠ d)
  | _ => true

namespace Service

variable {s : Service} {d : CallId} {now : Nat}

/-- Whoever has a permit in hand is a call under way. -/
theorem Sound.call_of_hasPermit (h : s.Sound) (hd : s.HasPermit d) :
    ∃ c, s.calls.get? d = some c := by
  obtain ⟨t, b, x, hb, hx⟩ := hd
  obtain ⟨c, hc, _⟩ := (h.place hb x d).mp (List.mem_append_right _ hx)
  exact ⟨c, hc⟩

/-- A call for one id that runs with a permit in hand is granted. -/
theorem resume_of_hasPermit (h : s.Sound) (hd : s.HasPermit d)
    (hfor : ∀ c, s.calls.get? d = some c → ∃ y, c.IsFor y) (now : Nat) :
    (s.resume d now).1 = .done true := by
  obtain ⟨t, b, x, hb, hx⟩ := hd
  obtain ⟨c, hc, htype, hhead⟩ := (h.place hb x d).mp (List.mem_append_right _ hx)
  obtain ⟨y, hy⟩ := hfor c hc
  obtain ⟨b', i, hb', hi, heq⟩ := resume_eq_of_isFor h hc hy now
  -- The permit is one of the lock that the call waits for.
  rw [htype, hb] at hb'
  cases hb'
  rw [hy.ids_eq] at hhead
  cases hhead
  rw [Block.item_of_get? hi] at hx
  rw [heq]
  show (i.attend d c now).1 = .done true
  unfold Item.attend
  rw [if_pos hx]
  split <;> rfl

theorem call?_record_done {name : CallId} {step : Progress × Block × List CallId} {granted : Bool}
    (h : step.1 = .done granted) : (s.record name step).2.1.calls.get? name = none := by
  obtain ⟨p, b, woken⟩ := step
  obtain rfl : p = .done granted := h
  show (s.calls.erase name).get? name = none
  rw [Table.get?_erase, if_pos rfl]

/-- A call that is over when it has begun is not under way. -/
theorem call?_begin_done {r : Request} {granted : Bool}
    (h : (s.begin d r now).1 = .ok (.done granted)) :
    (s.begin d r now).2.1.calls.get? d = none := by
  unfold begin at h ⊢
  cases hresolve : s.resolve r.resourceType r.party with
  | error e =>
    rw [hresolve] at h
    cases h
  | ok found =>
    rw [hresolve] at h
    exact call?_record_done (Except.ok.inj h)

/-- Nor is a call that has run and is over. -/
theorem call?_resume_done (hs : s.Sound) {granted : Bool}
    (h : (s.resume d now).1 = .done granted) : (s.resume d now).2.1.calls.get? d = none := by
  unfold resume at h ⊢
  cases hc : s.calls.get? d with
  | none => exact hc
  | some c =>
    obtain ⟨b, hb, _⟩ := (hs.call hc).fits
    simp only [hc, hb] at h ⊢
    exact call?_record_done h

/-- A call that gives up when it is woken is late. -/
theorem isLate_of_resume_denied (hs : s.Sound) {c : Call} (hc : s.calls.get? d = some c)
    (h : (s.resume d now).1 = .done false) : c.isLate now = true := by
  rcases resume_cases hs hc now with heq | ⟨b, b', hran⟩
  · rw [heq] at h
    cases h
  · have hrun := hran.run
    rw [h] at hrun
    exact hrun.isLate

/-- So is a call that gives up when it begins. -/
theorem isLate_of_begin_denied (hs : s.Sound) (hnew : s.calls.get? d = none) {r : Request}
    (h : (s.begin d r now).1 = .ok (.done false)) :
    ∃ users, (callOf r users now).isLate now = true := by
  rcases begin_cases hs hnew r now with ⟨e, he⟩ | ⟨users, b, p, b', _, hp, hran⟩
  · rw [he] at h
    cases h
  · rw [h] at hp
    cases hp
    exact ⟨users, hran.run.isLate⟩

end Service

namespace Moment

variable {m m' : Moment} {d : CallId} {c : Cue} {cs rest : List Cue}

/-! ### Calls that are denied -/

/-- The call `d` is told at a cue that it has not got what it asked for. -/
def Denies (m : Moment) (d : CallId) (c : Cue) : Prop :=
  (m.reply c).result = .ran (.ok (.done false)) ∧
    ((c.isRequest = true ∧ c.name = d) ∨
      (c.event = .wake d ∧ ∃ call, m.service.calls.get? d = some call))

/-- The call is denied by one of the cues of a script. -/
def DeniedIn (d : CallId) (m : Moment) (cs : List Cue) : Prop :=
  ∃ k c, cs[k]? = some c ∧ (m.play (cs.take k)).Denies d c

theorem deniedIn_cons : m.DeniedIn d (c :: rest) ↔ m.Denies d c ∨ (m.act c).DeniedIn d rest := by
  constructor
  · rintro ⟨k, c', hk, hdenies⟩
    cases k with
    | zero =>
      cases hk
      exact .inl hdenies
    | succ k => exact .inr ⟨k, c', hk, hdenies⟩
  · rintro (hdenies | ⟨k, c', hk, hdenies⟩)
    · exact ⟨0, c, rfl, hdenies⟩
    · exact ⟨k + 1, c', hk, hdenies⟩

/-- A call is over: its name is used, and it is not under way. -/
structure Over (m : Moment) (d : CallId) : Prop where
  used : d < m.nextCall
  ended : m.service.calls.get? d = none

theorem Hosts.nextCall_le (h : m.Hosts (c :: rest)) : m.nextCall ≤ (m.prepare c).nextCall := by
  unfold Moment.prepare
  split
  · rename_i hrequest
    exact h.ahead c List.mem_cons_self hrequest
  · exact Nat.le_refl _

/-- No call gets a name that is used. -/
theorem Hosts.name_ne (h : m.Hosts (c :: rest)) (hused : d < m.nextCall)
    (hrequest : c.isRequest = true) : c.name ≠ d := by
  have hle := h.ahead c List.mem_cons_self hrequest
  exact Nat.ne_of_gt (Nat.lt_of_lt_of_le hused hle)

theorem Hosts.used_act (h : m.Hosts (c :: rest)) (hused : d < m.nextCall) :
    d < (m.act c).nextCall :=
  Nat.lt_of_lt_of_le hused (h.nextCall_le.trans (nextCall_le_step _ _))

/-- A call that is over stays so. -/
theorem Over.act (ho : m.Over d) (h : m.Hosts (c :: rest)) : (m.act c).Over d := by
  refine ⟨h.used_act ho.used, ?_⟩
  cases hc : (m.act c).service.calls.get? d with
  | none => rfl
  | some call =>
    have hlt := Nat.lt_of_lt_of_le ho.used h.nextCall_le
    obtain ⟨call₀, hcall₀, _⟩ := call_before_step h.prepare hlt hc
    rw [service_prepare, ho.ended] at hcall₀
    cases hcall₀

theorem Over.play (ho : m.Over d) (h : m.Hosts (cs ++ rest)) : (m.play cs).Over d := by
  induction cs generalizing m with
  | nil => exact ho
  | cons c cs ih => exact ih (ho.act h) h.act

/-- A call that is over is not denied any more. -/
theorem Over.not_denied (ho : m.Over d) (h : m.Hosts cs) : ¬ m.DeniedIn d cs := by
  induction cs generalizing m with
  | nil => exact fun ⟨_, _, hk, _⟩ => nomatch hk
  | cons c rest ih =>
    rw [deniedIn_cons]
    rintro (⟨_, ⟨hrequest, hname⟩ | ⟨_, call, hcall⟩⟩ | hrest)
    · exact h.name_ne ho.used hrequest hname
    · rw [ho.ended] at hcall
      cases hcall
    · exact ih (ho.act h) h.act hrest

/-- A call that is told its result is over. -/
theorem over_of_done {granted : Bool} (h : m.Hosts (c :: rest))
    (hresult : (m.reply c).result = .ran (.ok (.done granted)))
    (hown : (c.isRequest = true ∧ c.name = d) ∨
      (c.event = .wake d ∧ ∃ call, m.service.calls.get? d = some call)) : (m.act c).Over d := by
  obtain ⟨e, name⟩ := c
  rcases hown with ⟨hrequest, rfl⟩ | ⟨rfl, call, hcall⟩
  · cases e with
    | request r =>
      have hdone : (m.service.begin name r m.now).1 = .ok (.done granted) :=
        Result.ran.inj hresult
      exact ⟨Nat.lt_succ_self name, Service.call?_begin_done hdone⟩
    | _ => cases hrequest
  · have hdone : (m.service.resume d m.now).1 = .done granted :=
      Except.ok.inj (Result.ran.inj hresult)
    exact ⟨h.sound.name_lt hcall, Service.call?_resume_done h.sound.service hdone⟩

/-- The calls under way under a name are for one id. -/
def IsSingleCall (m : Moment) (d : CallId) : Prop :=
  ∀ c, m.service.calls.get? d = some c → ∃ y, c.IsFor y

/-- Every request under a name is for one id. -/
def AsksOne (d : CallId) (cs : List Cue) : Prop :=
  ∀ c ∈ cs, c.isRequest = true → c.name = d → ∃ r y, c.event = .request r ∧ r.ids = [y]

theorem IsSingleCall.act (hone : m.IsSingleCall d) (h : m.Hosts (c :: rest))
    (hasks : AsksOne d (c :: rest)) : (m.act c).IsSingleCall d := by
  intro call hcall
  rcases call_origin h.prepare hcall with
    ⟨call₀, hcall₀, honward⟩ | ⟨r, users, hr, hd, _, honward⟩
  · rw [service_prepare] at hcall₀
    obtain ⟨y, hy⟩ := hone call₀ hcall₀
    exact ⟨y, hy.onward honward⟩
  · have hrequest : c.isRequest = true := by
      unfold Cue.isRequest
      rw [hr]
    have hname : c.name = d := by
      rw [hd]
      unfold prepare
      rw [if_pos hrequest]
    obtain ⟨r', y, hr', hy⟩ := hasks c List.mem_cons_self hrequest hname
    rw [hr] at hr'
    cases hr'
    exact ⟨y, (Service.isFor_callOf hy users _).onward honward⟩

/-- A call for one id that has a permit in hand is not denied: it keeps the
permit until it runs, and is granted then. -/
theorem not_denied_of_hasPermit (h : m.Hosts cs) (hone : m.IsSingleCall d)
    (hasks : AsksOne d cs) (hd : m.service.HasPermit d) : ¬ m.DeniedIn d cs := by
  induction cs generalizing m with
  | nil => exact fun ⟨_, _, hk, _⟩ => nomatch hk
  | cons c rest ih =>
    obtain ⟨call, hcall⟩ := h.sound.service.call_of_hasPermit hd
    have hused := h.sound.name_lt hcall
    rw [deniedIn_cons]
    by_cases hwake : c.event = .wake d
    · -- The call runs, so it is granted, and over.
      obtain ⟨e, name⟩ := c
      obtain rfl : e = .wake d := hwake
      have hdone := Service.resume_of_hasPermit h.sound.service hd hone m.now
      have hresult : (m.reply ⟨.wake d, name⟩).result = .ran (.ok (.done true)) :=
        congrArg (fun p => Result.ran (.ok p)) hdone
      have hover := over_of_done h hresult (.inr ⟨rfl, call, hcall⟩)
      rintro (⟨hdenied, _⟩ | hrest)
      · rw [hresult] at hdenied
        cases hdenied
      · exact hover.not_denied h.act hrest
    · have hnext : (m.act c).service.HasPermit d :=
        hasPermit_of_woken h.prepare hwake (.inl ((service_prepare m c).symm ▸ hd))
      rintro (⟨_, ⟨hrequest, hname⟩ | ⟨hevent, _⟩⟩ | hrest)
      · exact h.name_ne hused hrequest hname
      · exact hwake hevent
      · exact ih h.act (hone.act h hasks) (fun c' hc' => hasks c' (.tail c hc')) hnext hrest

/-! ### Cutting the cues of a call -/

/-- A moment of a script in which a call is denied, or was once, and one of
the same script without the call. -/
structure Erased (d : CallId) (rest : List Cue) (m m' : Moment) : Prop where
  now_eq : m.now = m'.now
  hosts : m.Hosts rest
  hosts' : m'.Hosts (rest.filter (Cue.isOther d))
  asks : AsksOne d rest
  one : m.IsSingleCall d
  status : m.Over d ∨ m.DeniedIn d rest
  without : m.service.Without d m'.service

/-- The call never has a permit in hand. -/
theorem Erased.empty_handed (h : Erased d rest m m') : ¬ m.service.HasPermit d := by
  intro hd
  rcases h.status with hover | hdenied
  · obtain ⟨call, hcall⟩ := h.hosts.sound.service.call_of_hasPermit hd
    rw [hover.ended] at hcall
    cases hcall
  · exact not_denied_of_hasPermit h.hosts h.one h.asks hd hdenied

/-- After each cue the call is over, or still to be denied. -/
theorem Erased.status_act (h : Erased d (c :: rest) m m') :
    (m.act c).Over d ∨ (m.act c).DeniedIn d rest := by
  rcases h.status with hover | hdenied
  · exact .inl (hover.act h.hosts)
  · rcases deniedIn_cons.mp hdenied with ⟨hresult, hown⟩ | hrest
    · exact .inl (over_of_done h.hosts hresult hown)
    · exact .inr hrest

/-- Nobody else wakes the call. -/
theorem Erased.not_woken (h : Erased d (c :: rest) m m') (hother : c.event ≠ .wake d) :
    d ∉ (m.reply c).woken := by
  intro hwoken
  have hd : (m.act c).service.HasPermit d := hasPermit_of_woken h.hosts.prepare hother (.inr hwoken)
  rcases h.status_act with hover | hdenied
  · obtain ⟨call, hcall⟩ := h.hosts.act.sound.service.call_of_hasPermit hd
    rw [hover.ended] at hcall
    cases hcall
  · exact not_denied_of_hasPermit h.hosts.act (h.one.act h.hosts h.asks)
      (fun c' hc' => h.asks c' (.tail c hc')) hd hdenied

/-- Every other cue does the same with and without the call. -/
theorem Erased.reply_eq (h : Erased d (c :: rest) m m') (hkeep : c.isOther d = true) :
    m.reply c = m'.reply c ∧ (m.act c).now = (m'.act c).now ∧
      (m.act c).service.Without d (m'.act c).service := by
  have hs := h.hosts.sound.service
  have hs' := h.hosts'.sound.service
  have hwithout := h.without
  have hnow := h.now_eq
  have hother : c.event ≠ .wake d := by
    intro hevent
    unfold Cue.isOther at hkeep
    rw [hevent] at hkeep
    exact of_decide_eq_true hkeep rfl
  have hwoken := h.not_woken hother
  have hempty := h.empty_handed
  have hone := h.one
  obtain ⟨e, name⟩ := c
  cases e with
  | declare decl =>
    obtain ⟨hresult, hstate⟩ := hwithout.createResource decl
    exact ⟨answer_eq hnow (congrArg Result.declared hresult) rfl, hnow, hstate⟩
  | request r =>
    have hne : name ≠ d := of_decide_eq_true hkeep
    have hagree := hwithout.begin hne r m.now hwoken
    have hnow' : (m.prepare ⟨.request r, name⟩).now = (m'.prepare ⟨.request r, name⟩).now := hnow
    refine ⟨answer_eq hnow' ?_ ?_, hnow, ?_⟩
    · show Result.ran (m.service.begin name r m.now).1 = .ran (m'.service.begin name r m'.now).1
      rw [← hnow, hagree.result]
    · show (m.service.begin name r m.now).2.2 = (m'.service.begin name r m'.now).2.2
      rw [← hnow, hagree.woken]
    · show (m.service.begin name r m.now).2.1.Without d (m'.service.begin name r m'.now).2.1
      rw [← hnow]
      exact hagree.state
  | wake n =>
    have hne : n ≠ d := of_decide_eq_true hkeep
    have hagree := hwithout.resume hne m.now hwoken
    refine ⟨answer_eq hnow ?_ ?_, hnow, ?_⟩
    · show Result.ran (.ok (m.service.resume n m.now).1) = .ran (.ok (m'.service.resume n m'.now).1)
      rw [← hnow, hagree.result]
    · show (m.service.resume n m.now).2.2 = (m'.service.resume n m'.now).2.2
      rw [← hnow, hagree.woken]
    · show (m.service.resume n m.now).2.1.Without d (m'.service.resume n m'.now).2.1
      rw [← hnow]
      exact hagree.state
  | unlock t id p =>
    have hagree := hwithout.unlock t id p hwoken
    exact ⟨answer_eq hnow (congrArg Result.unlocked hagree.result) hagree.woken, hnow,
      hagree.state⟩
  | unlockAll t ids p =>
    have hagree := hwithout.unlockAll t ids p hwoken
    exact ⟨answer_eq hnow (congrArg Result.unlocked hagree.result) hagree.woken, hnow,
      hagree.state⟩
  | collect =>
    exact ⟨answer_eq hnow rfl rfl, hnow, hwithout.collectGarbage hs hs' hone hempty⟩
  | elapse ms => exact ⟨answer_eq hnow rfl rfl, congrArg (· + ms) hnow, hwithout⟩

/-- What the call does itself is not seen without it. -/
theorem Erased.cut (h : Erased d (c :: rest) m m') (hcut : c.isOther d = false) :
    (m.act c).now = m.now ∧ (m.act c).service.Without d m'.service := by
  have hs := h.hosts.sound.service
  have hasks := h.asks c List.mem_cons_self
  have hstatus := h.status
  have hhosts := h.hosts
  have hempty := h.empty_handed
  obtain ⟨e, name⟩ := c
  cases e with
  | request r =>
    obtain rfl : name = d := not_not.mp (of_decide_eq_false hcut)
    obtain ⟨r', y, hr', hy⟩ := hasks rfl rfl
    cases hr'
    refine ⟨rfl, h.without.joined hs hy m.now fun hdone => ?_⟩
    -- A call that is granted at once is over, and cannot be denied later.
    have hresult : (m.reply ⟨.request r, name⟩).result = .ran (.ok (.done true)) :=
      congrArg Result.ran hdone
    rcases hstatus with hover | hdenied
    · exact hhosts.name_ne hover.used rfl rfl
    · rcases deniedIn_cons.mp hdenied with ⟨hfalse, _⟩ | hrest
      · rw [hresult] at hfalse
        cases hfalse
      · exact (over_of_done hhosts hresult (.inl ⟨rfl, rfl⟩)).not_denied hhosts.act hrest
  | wake n =>
    obtain rfl : n = d := not_not.mp (of_decide_eq_false hcut)
    exact ⟨rfl, h.without.waited hs h.one hempty m.now⟩
  | _ => cases hcut

/-- Time may pass without the call if it may pass with it. -/
theorem Erased.prompt {e : Event} (h : Erased d rest m m') (hprompt : m.Prompt e) :
    m'.Prompt e := by
  cases e with
  | elapse ms =>
    intro hms
    obtain ⟨hsettled, hdeadlines⟩ := hprompt hms
    constructor
    · rintro n ⟨t, b', y, hb', hn⟩
      obtain ⟨b, hb, hrel⟩ := h.without.blocks.of_get?_right hb'
      rw [hrel.item y] at hn
      exact hsettled n ⟨t, b, y, hb, hn⟩
    · intro n c t hc ht
      rw [h.without.calls n] at hc
      split at hc
      · cases hc
      · rw [← h.now_eq]
        exact hdeadlines n c t hc ht
  | _ => trivial

/-- The cues of a call that is denied can be cut. -/
theorem erased_tracks (d : CallId) : Tracks (Cue.isOther d) (Erased d) where
  kept {c rest m m'} h hkeep := by
    obtain ⟨hreply, hnow, hwithout⟩ := h.reply_eq hkeep
    have hhosts' := h.hosts'
    rw [List.filter_cons_of_pos hkeep] at hhosts'
    exact ⟨hreply, hnow, h.hosts.act, hhosts'.act, fun c' hc' => h.asks c' (.tail c hc'),
      h.one.act h.hosts h.asks, h.status_act, hwithout⟩
  cut {c rest m m'} h hcut := by
    obtain ⟨hnow, hwithout⟩ := Erased.cut h hcut
    have hhosts' := h.hosts'
    rw [List.filter_cons_of_neg (by rw [hcut]; exact Bool.false_ne_true)] at hhosts'
    exact ⟨hnow.trans h.now_eq, h.hosts.act, hhosts', fun c' hc' => h.asks c' (.tail c hc'),
      h.one.act h.hosts h.asks, h.status_act, hwithout⟩
  prompt h := h.prompt

/-! ### When a call is denied -/

/-- A call that begins gets its deadline, and none had its name before. -/
theorem Hosts.deadline_act {r : Request} (h : m.Hosts (⟨.request r, d⟩ :: rest)) {call : Call}
    (hcall : (m.act ⟨.request r, d⟩).service.calls.get? d = some call) :
    call.deadline = r.timeout.map (m.now + ·) := by
  rcases call_origin h.prepare hcall with ⟨call₀, hcall₀, _⟩ | ⟨r', users, hr, _, _, honward⟩
  · have hlt := h.prepare.name_lt hcall₀
    exact absurd hlt (Nat.lt_irrefl d)
  · cases hr
    exact honward.deadline_eq

/-- It keeps its deadline. -/
theorem Hosts.deadline_play (h : m.Hosts (cs ++ rest)) (hused : d < m.nextCall)
    {limit : Option Nat}
    (hlimit : ∀ call, m.service.calls.get? d = some call → call.deadline = limit) (call : Call)
    (hcall : (m.play cs).service.calls.get? d = some call) : call.deadline = limit := by
  induction cs generalizing m with
  | nil => exact hlimit call hcall
  | cons c cs ih =>
    refine ih h.act (h.used_act hused) (fun call₁ hcall₁ => ?_) hcall
    have hlt := Nat.lt_of_lt_of_le hused h.nextCall_le
    obtain ⟨call₀, hcall₀, hcontinues⟩ := call_before_step h.prepare hlt hcall₁
    rw [service_prepare] at hcall₀
    rw [hcontinues.deadline_eq]
    exact hlimit call₀ hcall₀

/-- A call is under way only after its request, and with the deadline that
it got then. -/
theorem deadline_at (hnamed : Named cs) {i k : Nat} {r : Request}
    (hi : cs[i]? = some ⟨.request r, d⟩) (hk : cs[k]? = some c) {call : Call}
    (hcall : (play {} (cs.take k)).service.calls.get? d = some call) :
    call.deadline = r.timeout.map ((play {} (cs.take i)).now + ·) := by
  have hhosts := hosts_at hnamed hk
  have hhosts₀ := hosts_at hnamed hi
  have hlt : i < k := by
    by_contra hle
    -- The name of a call under way is not given any more.
    have hmem : (⟨.request r, d⟩ : Cue) ∈ cs.drop k := by
      refine List.mem_of_getElem? (i := i - k) ?_
      rw [List.getElem?_drop, Nat.add_sub_cancel' (Nat.not_lt.mp hle), hi]
    obtain ⟨hklt, hkget⟩ := List.getElem?_eq_some_iff.mp hk
    rw [List.drop_eq_getElem_cons hklt, hkget] at hmem
    have hahead := hhosts.ahead _ hmem rfl
    exact absurd (hhosts.sound.name_lt hcall) (Nat.not_lt.mpr hahead)
  obtain ⟨mid, hmid, hplay⟩ := play_take (m := {}) hi hlt
  rw [hplay] at hcall
  have hact := hhosts₀.act
  rw [hmid] at hact
  exact hact.deadline_play (Nat.lt_succ_self d) (fun _ h => hhosts₀.deadline_act h) call hcall

/-- A call is denied when its time is up. It cannot be earlier, since only a
call whose deadline has come gives up; and not later, since the scheduler
does not let the deadline pass before. -/
theorem now_of_denied (hnamed : Named cs) {i k : Nat} {r : Request} {limit : Nat}
    (hi : cs[i]? = some ⟨.request r, d⟩) (htimeout : r.timeout = some limit)
    (hk : cs[k]? = some c) (hdenied : (play {} (cs.take k)).Denies d c)
    (hpunctual : Punctual {} cs) :
    (play {} (cs.take k)).now = (play {} (cs.take i)).now + limit := by
  have hhosts := hosts_at hnamed hk
  obtain ⟨hresult, ⟨hrequest, hname⟩ | ⟨hevent, call, hcall⟩⟩ := hdenied
  · -- The request itself is denied, so it has no time at all.
    obtain rfl := hnamed.index_eq hi hk rfl hrequest hname.symm
    rw [hi] at hk
    cases hk
    have hfree : (play {} (cs.take i)).service.calls.get? d = none := by
      have hnext := hhosts.prepare.nextCall_free
      rwa [service_prepare] at hnext
    obtain ⟨users, hlate⟩ := Service.isLate_of_begin_denied hhosts.sound.service hfree
      (Result.ran.inj hresult)
    unfold Call.isLate Service.callOf at hlate
    rw [htimeout, Option.map_some, Option.any_some, decide_eq_true_eq] at hlate
    omega
  · have hdone : ((play {} (cs.take k)).service.resume d (play {} (cs.take k)).now).1
        = .done false := by
      obtain ⟨e, name⟩ := c
      obtain rfl : e = .wake d := hevent
      exact Except.ok.inj (Result.ran.inj hresult)
    have hlate := Service.isLate_of_resume_denied hhosts.sound.service hcall hdone
    have hdeadline := deadline_at hnamed hi hk hcall
    rw [htimeout, Option.map_some] at hdeadline
    have hle := inTime_at hnamed hpunctual k d call _ hcall hdeadline
    unfold Call.isLate at hlate
    rw [hdeadline, Option.any_some, decide_eq_true_eq] at hlate
    omega

/-- A call for one resource with a limit of time that is denied leaves no
trace. Without the call, everybody else gets the same answers at the same
time, and from the moment on at which it is denied the service is the same,
with the owners, permits and last owner of every lock. If the scheduler is
prompt, it is prompt without the call as well, and the call is denied
exactly when its time is up. Whatever the other calls do, they may lock and
take back any number of resources. -/
theorem timed_out_try_leaves_no_trace (cs : List Cue) (hnamed : Named cs) {i k : Nat}
    {r : Request} {d : CallId} {x : Int} {limit : Nat} {c : Cue}
    (hi : cs[i]? = some ⟨.request r, d⟩) (hids : r.ids = [x]) (htimeout : r.timeout = some limit)
    (hk : cs[k]? = some c) (hdenied : (play {} (cs.take k)).Denies d c) :
    let without := cs.filter (Cue.isOther d)
    (replies {} cs).filter (fun a => a.1.isOther d) = replies {} without ∧
      (∀ n, k < n →
        (play {} (cs.take n)).now = (play {} ((cs.take n).filter (Cue.isOther d))).now ∧
        (play {} (cs.take n)).service
          = (play {} ((cs.take n).filter (Cue.isOther d))).service) ∧
      (Punctual {} cs → Punctual {} without ∧
        (play {} (cs.take k)).now = (play {} (cs.take i)).now + limit) := by
  intro without
  have htracks := erased_tracks d
  have hstart : Erased d cs {} {} :=
    { now_eq := rfl
      hosts := hosts_start hnamed
      hosts' := hosts_start (hnamed.sublist List.filter_sublist)
      asks := fun q hq hrequest hname => by
        obtain rfl := hnamed.eq_of_name_eq hq (List.mem_of_getElem? hi) hrequest rfl hname
        exact ⟨r, x, rfl, hids⟩
      one := fun _ h => nomatch h
      status := .inr ⟨k, c, hk, hdenied⟩
      without := Service.without_empty d }
  have hsplit : ∀ n, Erased d (cs.take n ++ cs.drop n) {} {} := fun n =>
    (List.take_append_drop n cs).symm ▸ hstart
  have hwhole : Erased d (cs ++ []) {} {} := (List.append_nil cs).symm ▸ hstart
  refine ⟨(htracks.replies_filter hwhole).1, fun n hn => ?_, fun hpunctual => ⟨?_, ?_⟩⟩
  · obtain ⟨_, hlast⟩ := htracks.replies_filter (hsplit n)
    have hover : (play {} (cs.take n)).Over d := by
      obtain ⟨mid, hmid, hplay⟩ := play_take (m := {}) hk hn
      have hhosts := hosts_at hnamed hk
      have hact := hhosts.act
      rw [hmid] at hact
      rw [hplay]
      exact (over_of_done hhosts hdenied.1 hdenied.2).play hact
    exact ⟨hlast.now_eq,
      hlast.without.eq hlast.hosts.sound.service hlast.hosts'.sound.service hover.ended⟩
  · exact htracks.punctual_filter hwhole hpunctual
  · exact now_of_denied hnamed hi htimeout hk hdenied hpunctual

/-- A call with 50 ms of time stands in a queue between the owner and another
call. It gives up just before the owner unlocks, at the same instant. -/
def queuedTry : List Cue :=
  [⟨.declare ⟨"bed", 1, false⟩, 0⟩,
   ⟨.request ⟨"bed", [1], .one 10, none⟩, 0⟩,
   ⟨.request ⟨"bed", [1], .one 20, some 50⟩, 1⟩,
   ⟨.request ⟨"bed", [1], .one 30, none⟩, 2⟩,
   ⟨.elapse 50, 0⟩,
   ⟨.wake 1, 0⟩,
   ⟨.unlock "bed" 1 (.one 10), 0⟩,
   ⟨.wake 2, 0⟩]

/-- The call behind it is let in as if it had never been there. -/
theorem timed_out_try_leaves_no_trace_queuedTry :
    Named queuedTry ∧ queuedTry[2]? = some ⟨.request ⟨"bed", [1], .one 20, some 50⟩, 1⟩ ∧
      queuedTry[5]? = some ⟨.wake 1, 0⟩ ∧ (play {} (queuedTry.take 5)).Denies 1 ⟨.wake 1, 0⟩ ∧
      Punctual {} queuedTry ∧
      (replies {} queuedTry).filter (fun a => a.1.isOther 1)
        = replies {} (queuedTry.filter (Cue.isOther 1)) ∧
      (play {} queuedTry).service = (play {} (queuedTry.filter (Cue.isOther 1))).service ∧
      Punctual {} (queuedTry.filter (Cue.isOther 1)) ∧
      (play {} (queuedTry.take 5)).now = (play {} (queuedTry.take 2)).now + 50 := by
  have hnamed : Named queuedTry := by decide
  have hdenied : (play {} (queuedTry.take 5)).Denies 1 ⟨.wake 1, 0⟩ :=
    ⟨by decide, .inr ⟨rfl, _, rfl⟩⟩
  have hpunctual : Punctual {} queuedTry :=
    ⟨trivial, trivial, trivial, trivial, prompt_of_entries (by decide) (by decide), trivial,
      trivial, trivial, trivial⟩
  obtain ⟨hreplies, hservice, htime⟩ := timed_out_try_leaves_no_trace queuedTry hnamed
    (i := 2) (k := 5) (d := 1) (x := 1) rfl rfl rfl rfl hdenied
  obtain ⟨hpunctual', hnow⟩ := htime hpunctual
  exact ⟨hnamed, rfl, rfl, hdenied, hpunctual, hreplies, (hservice 8 (by decide)).2, hpunctual',
    hnow⟩

end Moment

end Backplane.Lock
