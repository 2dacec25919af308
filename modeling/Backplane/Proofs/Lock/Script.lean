import Backplane.Proofs.Lock.Collection

/-!
# `Backplane.Proofs.Lock.Script`: scripts, and the same script with parts cut

A history gives its calls the names 0, 1, 2 and so on. If some requests are
cut out of a history, the calls of the others get other names, and the
wake-ups in it are meant for other calls. A script is a history that says
how each call is to be named, so that the same script with some of it cut
makes sense. The main statements:

* `Tracks.replies_filter`: how to show that what is cut out of a script
  makes no difference to the rest of it.
* `play_script`, `named_script`: every history is a script.
* `inTime_step`, `inTime_play`: if the scheduler is prompt, no call is under
  way beyond its deadline.

Whether time may pass is the scheduler's business. It is prompt if it lets
time pass only when every call that was handed a permit has run since, and
not beyond the deadline of a call that is still under way. In which order
calls run at one instant is left open.
-/

set_option autoImplicit false

namespace Backplane.Lock

namespace Moment

/-! ### Prompt schedulers -/

/-- Time passes only when nobody has a permit in hand, and not beyond the
deadline of a call under way. -/
def Prompt (m : Moment) : Event → Prop
  | .elapse ms => 0 < ms → m.Settled ∧ ∀ n c d, m.service.calls.get? n = some c →
      c.deadline = some d → m.now + ms ≤ d
  | _ => True

/-- No call is under way beyond its deadline. -/
def InTime (m : Moment) : Prop :=
  ∀ n c d, m.service.calls.get? n = some c → c.deadline = some d → m.now ≤ d

variable {m m' : Moment} {e : Event}

/-- It is enough to look at the locks and calls that are there. -/
theorem prompt_of_entries {ms : Nat}
    (hlocks : ∀ e ∈ m.service.blocks.entries, ∀ f ∈ e.2.items.entries, f.2.handed = [])
    (hcalls : ∀ e ∈ m.service.calls.entries, ∀ d ∈ e.2.deadline, m.now + ms ≤ d) :
    m.Prompt (.elapse ms) :=
  fun _ => ⟨settled_of_entries hlocks, fun _ _ d hc hd =>
    hcalls _ (Table.mem_entries_of_get? hc) d hd⟩

/-- A prompt scheduler lets no call miss its deadline. -/
theorem inTime_step (h : m.Sound) (hprompt : m.Prompt e) (hin : m.InTime) :
    (m.step e).InTime := by
  intro n c d hc hd
  by_cases htime : ∃ ms, e = .elapse ms
  · obtain ⟨ms, rfl⟩ := htime
    change m.service.calls.get? n = some c at hc
    show m.now + ms ≤ d
    by_cases hms : 0 < ms
    · exact (hprompt hms).2 n c d hc hd
    · have hle := hin n c d hc hd
      omega
  · have hnow : (m.step e).now = m.now := by
      cases e with
      | elapse ms => exact absurd ⟨ms, rfl⟩ htime
      | _ => rfl
    rw [hnow]
    -- A call keeps the deadline that it began with.
    rcases call_origin h hc with ⟨c₀, hc₀, honward⟩ | ⟨r, users, _, _, _, honward⟩
    · exact hin n c₀ d hc₀ (honward.deadline_eq ▸ hd)
    · rw [honward.deadline_eq] at hd
      obtain ⟨ms, _, rfl⟩ := Option.map_eq_some_iff.mp hd
      exact Nat.le_add_right _ _

end Moment

/-! ### Scripts -/

/-- An event, with the name of the call that begins if the event is a
request. -/
structure Cue where
  event : Event
  name : CallId := 0
deriving Repr, DecidableEq

/-- Whether a cue is a request. -/
def Cue.isRequest (c : Cue) : Bool := match c.event with
  | .request _ => true
  | _ => false

/-- The calls of a script have names of their own, which ascend. -/
def Named (cs : List Cue) : Prop :=
  cs.Pairwise fun c d => c.isRequest = true → d.isRequest = true → c.name < d.name

instance (cs : List Cue) : Decidable (Named cs) := inferInstanceAs (Decidable (List.Pairwise _ _))

/-- Two requests of a script with one name are the same. -/
theorem Named.eq_of_name_eq {cs : List Cue} (h : Named cs) {c d : Cue} (hc : c ∈ cs) (hd : d ∈ cs)
    (hrc : c.isRequest = true) (hrd : d.isRequest = true) (hname : c.name = d.name) : c = d := by
  induction cs with
  | nil => cases hc
  | cons e rest ih =>
    obtain ⟨hhead, htail⟩ := List.pairwise_cons.mp h
    rcases List.mem_cons.mp hc with rfl | hc'
    · rcases List.mem_cons.mp hd with rfl | hd'
      · rfl
      · exact absurd hname (Nat.ne_of_lt (hhead d hd' hrc hrd))
    · rcases List.mem_cons.mp hd with rfl | hd'
      · exact absurd hname.symm (Nat.ne_of_lt (hhead c hc' hrd hrc))
      · exact ih htail hc' hd'

/-- So they stand at one place of it. -/
theorem Named.index_eq {cs : List Cue} (h : Named cs) {i k : Nat} {c d : Cue}
    (hi : cs[i]? = some c) (hk : cs[k]? = some d) (hrc : c.isRequest = true)
    (hrd : d.isRequest = true) (hname : c.name = d.name) : i = k := by
  have hpair := List.pairwise_iff_getElem.mp h
  obtain ⟨hilt, rfl⟩ := List.getElem?_eq_some_iff.mp hi
  obtain ⟨hklt, rfl⟩ := List.getElem?_eq_some_iff.mp hk
  rcases Nat.lt_trichotomy i k with hlt | heq | hlt
  · exact absurd hname (Nat.ne_of_lt (hpair i k hilt hklt hlt hrc hrd))
  · exact heq
  · exact absurd hname.symm (Nat.ne_of_lt (hpair k i hklt hilt hlt hrd hrc))

namespace Moment

/-- The moment before a request, with the name for its call. -/
def prepare (m : Moment) (c : Cue) : Moment :=
  if c.isRequest then { m with nextCall := c.name } else m

/-- The service after a cue. -/
def act (m : Moment) (c : Cue) : Moment := (m.prepare c).step c.event

/-- The answer to a cue. -/
def reply (m : Moment) (c : Cue) : Answer := (m.prepare c).answer c.event

/-- The service after a script. -/
def play (m : Moment) (cs : List Cue) : Moment := cs.foldl act m

/-- The cues of a script with their answers. -/
def replies (m : Moment) : List Cue → List (Cue × Answer)
  | [] => []
  | c :: rest => (c, m.reply c) :: (m.act c).replies rest

/-- The scheduler is prompt all through a script. -/
def Punctual (m : Moment) : List Cue → Prop
  | [] => True
  | c :: rest => m.Prompt c.event ∧ (m.act c).Punctual rest

variable {m m' : Moment} {c : Cue} {cs front back rest : List Cue}

@[simp] theorem now_prepare (m : Moment) (c : Cue) : (m.prepare c).now = m.now := by
  unfold prepare
  split <;> rfl

@[simp] theorem service_prepare (m : Moment) (c : Cue) : (m.prepare c).service = m.service := by
  unfold prepare
  split <;> rfl

theorem play_append (m : Moment) (front back : List Cue) :
    m.play (front ++ back) = (m.play front).play back := List.foldl_append

theorem punctual_append :
    m.Punctual (front ++ back) ↔ m.Punctual front ∧ (m.play front).Punctual back := by
  induction front generalizing m with
  | nil => exact (true_and _).symm.to_iff
  | cons c rest ih =>
    show _ ∧ (m.act c).Punctual (rest ++ back) ↔ (_ ∧ _) ∧ ((m.act c).play rest).Punctual back
    rw [ih, and_assoc]

/-- The answer to a cue of a script is the one at the moment before it. -/
theorem getElem?_replies (m : Moment) (cs : List Cue) (k : Nat) :
    (m.replies cs)[k]? = cs[k]?.map fun c => (c, (m.play (cs.take k)).reply c) := by
  induction cs generalizing m k with
  | nil => rfl
  | cons c rest ih =>
    cases k with
    | zero => rfl
    | succ k => exact ih (m.act c) k

/-! ### Moments in order -/

/-- A moment in order at which a script can go on: the names of the calls
to come are not used up. -/
structure Hosts (m : Moment) (cs : List Cue) : Prop where
  sound : m.Sound
  named : Named cs
  ahead : ∀ c ∈ cs, c.isRequest = true → m.nextCall ≤ c.name

theorem hosts_start (h : Named cs) : Hosts {} cs where
  sound := sound_after [] 0
  named := h
  ahead _ _ _ := Nat.zero_le _

/-- A moment stays in order when the next call is given its name. -/
theorem Hosts.prepare (h : m.Hosts (c :: rest)) : (m.prepare c).Sound := by
  refine ⟨(service_prepare m c).symm ▸ h.sound.service, fun {n d} hd => ?_⟩
  rw [service_prepare] at hd
  have hlt := h.sound.name_lt hd
  unfold Moment.prepare
  split
  · rename_i hrequest
    exact Nat.lt_of_lt_of_le hlt (h.ahead c List.mem_cons_self hrequest)
  · exact hlt

theorem nextCall_act (m : Moment) (c : Cue) :
    (m.act c).nextCall = if c.isRequest then c.name + 1 else m.nextCall := by
  obtain ⟨e, name⟩ := c
  cases e <;> rfl

/-- Every cue keeps a moment in order for the rest of the script. -/
theorem Hosts.act (h : m.Hosts (c :: rest)) : (m.act c).Hosts rest := by
  obtain ⟨hhead, htail⟩ := List.pairwise_cons.mp h.named
  refine ⟨sound_step h.prepare c.event, htail, fun d hd hrequest => ?_⟩
  rw [nextCall_act]
  split
  · rename_i hc
    exact hhead d hd hc hrequest
  · exact h.ahead d (List.mem_cons_of_mem c hd) hrequest

/-- So does a cue that is left out. -/
theorem Hosts.skip (h : m.Hosts (c :: rest)) : m.Hosts rest :=
  ⟨h.sound, h.named.of_cons, fun d hd => h.ahead d (List.mem_cons_of_mem c hd)⟩

theorem Hosts.play (h : m.Hosts (front ++ back)) : (m.play front).Hosts back := by
  induction front generalizing m with
  | nil => exact h
  | cons c rest ih => exact ih h.act

/-- The moment at which a cue of a script has its turn is in order. -/
theorem hosts_at {k : Nat} (h : Named cs) (hk : cs[k]? = some c) :
    (play {} (cs.take k)).Hosts (c :: cs.drop (k + 1)) := by
  obtain ⟨hlt, rfl⟩ := List.getElem?_eq_some_iff.mp hk
  rw [← List.drop_eq_getElem_cons hlt]
  refine Hosts.play ?_
  rw [List.take_append_drop]
  exact hosts_start h

/-- How a script goes on from one of its cues to a later one. -/
theorem play_take {i k : Nat} (hi : cs[i]? = some c) (hlt : i < k) :
    ∃ mid, cs.drop (i + 1) = mid ++ cs.drop k ∧
      m.play (cs.take k) = ((m.play (cs.take i)).act c).play mid := by
  refine ⟨(cs.drop (i + 1)).take (k - (i + 1)), ?_, ?_⟩
  · have hdrop : cs.drop k = (cs.drop (i + 1)).drop (k - (i + 1)) := by
      rw [List.drop_drop]
      congr 1
      omega
    rw [hdrop, List.take_append_drop]
  · have hk : k = i + 1 + (k - (i + 1)) := by omega
    have htake : cs.take k = cs.take i ++ c :: (cs.drop (i + 1)).take (k - (i + 1)) := by
      conv_lhs => rw [hk, List.take_add, List.take_add_one, hi]
      simp
    rw [htake, play_append]
    rfl

/-- At every moment of a script that runs promptly, no call is under way
beyond its deadline. -/
theorem inTime_play (h : m.Hosts (front ++ back)) (hpunctual : m.Punctual front)
    (hin : m.InTime) : (m.play front).InTime := by
  induction front generalizing m with
  | nil => exact hin
  | cons c rest ih =>
    obtain ⟨hprompt, hrest⟩ := hpunctual
    refine ih h.act hrest (inTime_step h.prepare ?_ ?_)
    · -- The name that is given to a call is nothing to the clock.
      obtain ⟨e, name⟩ := c
      cases e with
      | elapse ms => exact hprompt
      | _ => trivial
    · intro n d t hd ht
      rw [service_prepare] at hd
      rw [now_prepare]
      exact hin n d t hd ht

theorem inTime_at (h : Named cs) (hpunctual : Punctual {} cs) (k : Nat) :
    (play {} (cs.take k)).InTime := by
  have hhosts : Hosts {} (cs.take k ++ cs.drop k) := by
    rw [List.take_append_drop]
    exact hosts_start h
  rw [← List.take_append_drop k cs, punctual_append] at hpunctual
  exact inTime_play hhosts hpunctual.1 fun _ _ _ h => nomatch h

/-! ### Scripts with parts cut -/

/-- A relation between a moment of a script and one of the same script with
some cues cut, which the cues keep: those that are left have the same
answer on both sides, and those that are cut make no difference. The
relation may look at what is still to come. -/
structure Tracks (keep : Cue → Bool) (rel : List Cue → Moment → Moment → Prop) : Prop where
  kept : ∀ {c rest m m'}, rel (c :: rest) m m' → keep c = true →
    m.reply c = m'.reply c ∧ rel rest (m.act c) (m'.act c)
  cut : ∀ {c rest m m'}, rel (c :: rest) m m' → keep c = false → rel rest (m.act c) m'
  prompt : ∀ {c rest m m'}, rel (c :: rest) m m' → m.Prompt c.event → m'.Prompt c.event

variable {keep : Cue → Bool} {rel : List Cue → Moment → Moment → Prop}

/-- The rest of a script is answered as if the other cues had never been,
and leaves a moment related to the one without them. -/
theorem Tracks.replies_filter (htracks : Tracks keep rel) (h : rel (front ++ back) m m') :
    (m.replies front).filter (fun r => keep r.1) = m'.replies (front.filter keep) ∧
      rel back (m.play front) (m'.play (front.filter keep)) := by
  induction front generalizing m m' with
  | nil => exact ⟨rfl, h⟩
  | cons c rest ih =>
    cases hkeep : keep c with
    | true =>
      obtain ⟨hreply, hnext⟩ := htracks.kept h hkeep
      obtain ⟨hrest, hlast⟩ := ih hnext
      rw [List.filter_cons_of_pos hkeep]
      refine ⟨?_, hlast⟩
      have hfirst : ((c, m.reply c) :: (m.act c).replies rest).filter (fun r => keep r.1)
          = (c, m.reply c) :: ((m.act c).replies rest).filter fun r => keep r.1 :=
        List.filter_cons_of_pos hkeep
      exact hfirst.trans (by rw [hreply, hrest]; rfl)
    | false =>
      have hnot : ¬ keep c = true := by
        rw [hkeep]
        exact Bool.false_ne_true
      obtain ⟨hrest, hlast⟩ := ih (htracks.cut h hkeep)
      rw [List.filter_cons_of_neg hnot]
      refine ⟨?_, hlast⟩
      have hfirst : ((c, m.reply c) :: (m.act c).replies rest).filter (fun r => keep r.1)
          = ((m.act c).replies rest).filter fun r => keep r.1 := List.filter_cons_of_neg hnot
      exact hfirst.trans hrest

/-- A script that is cut so runs promptly if the whole one does. -/
theorem Tracks.punctual_filter (htracks : Tracks keep rel) (h : rel (front ++ back) m m')
    (hpunctual : m.Punctual front) : m'.Punctual (front.filter keep) := by
  induction front generalizing m m' with
  | nil => trivial
  | cons c rest ih =>
    obtain ⟨hprompt, hrest⟩ := hpunctual
    cases hkeep : keep c with
    | true =>
      rw [List.filter_cons_of_pos hkeep]
      exact ⟨htracks.prompt h hprompt, ih (htracks.kept h hkeep).2 hrest⟩
    | false =>
      rw [List.filter_cons_of_neg (by rw [hkeep]; exact Bool.false_ne_true)]
      exact ih (htracks.cut h hkeep) hrest

end Moment

/-! ### Histories are scripts -/

/-- The script of a history whose first call has the name `n`. -/
def script (n : CallId) : List Event → List Cue
  | [] => []
  | e :: rest =>
    let c : Cue := ⟨e, n⟩
    c :: script (if c.isRequest then n + 1 else n) rest

theorem name_of_mem_script {n : CallId} {es : List Event} {c : Cue} (h : c ∈ script n es) :
    n ≤ c.name := by
  induction es generalizing n with
  | nil => cases h
  | cons e rest ih =>
    rcases List.mem_cons.mp h with rfl | h
    · exact Nat.le_refl n
    · have hle := ih h
      split at hle
      · exact Nat.le_of_succ_le hle
      · exact hle

/-- The calls of a history have names of their own. -/
theorem named_script (n : CallId) (es : List Event) : Named (script n es) := by
  induction es generalizing n with
  | nil => exact List.Pairwise.nil
  | cons e rest ih =>
    refine List.pairwise_cons.mpr ⟨fun d hd hc _ => ?_, ih _⟩
    have hle := name_of_mem_script hd
    rw [if_pos hc] at hle
    exact hle

namespace Moment

theorem prepare_self (m : Moment) (e : Event) : m.prepare ⟨e, m.nextCall⟩ = m := by
  unfold prepare
  split <;> rfl

theorem nextCall_step (m : Moment) (e : Event) :
    (m.step e).nextCall = if Cue.isRequest ⟨e, m.nextCall⟩ then m.nextCall + 1 else m.nextCall := by
  cases e <;> rfl

/-- Every history is a script, with the same answers and the same end. -/
theorem play_script (m : Moment) (es : List Event) :
    m.play (script m.nextCall es) = es.foldl step m ∧
      (m.replies (script m.nextCall es)).map Prod.snd = m.answers es := by
  induction es generalizing m with
  | nil => exact ⟨rfl, rfl⟩
  | cons e rest ih =>
    obtain ⟨hplay, hanswers⟩ := ih (m.step e)
    rw [nextCall_step] at hplay hanswers
    have hact : m.act ⟨e, m.nextCall⟩ = m.step e := congrArg (·.step e) (prepare_self m e)
    have hreply : m.reply ⟨e, m.nextCall⟩ = m.answer e := congrArg (·.answer e) (prepare_self m e)
    constructor
    · show (m.act ⟨e, m.nextCall⟩).play _ = _
      rw [hact, hplay]
      rfl
    · show m.reply ⟨e, m.nextCall⟩ :: ((m.act ⟨e, m.nextCall⟩).replies _).map Prod.snd = _
      rw [hact, hreply, hanswers]
      rfl

end Moment

end Backplane.Lock
