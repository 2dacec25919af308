import Backplane.Proofs.Access.History
import Backplane.Proofs.Bus.Dispatch
import Backplane.Proofs.Text.Numeral

/-!
# `Backplane.Proofs.Node.Logons`: the sessions that messages announce

The session keeper of a node turns messages into an index of the users that
sessions belong to. Messages carry values of any kind, and only a well-formed
one concerns a session: `Announces` says of which session and user a logon
tells, and `Ends` which session a logout ends. `Heard` is a dispatch in which
the keeper is called and is the only one that acts on the access service;
`Told` is a node to which messages are dispatched in this way, one after the
other. The other listeners may do anything else, and anything else may happen
to the node between two messages, as long as it is not about sessions.

The main statements:

* `announces_iff`, `ends_iff`: the keeper takes exactly the well-formed
  messages.
* `sessionLogon?_keepSessions`: what one message does to the index.
* `Heard.access_dispatch`: a dispatch does to the access service what the keeper
  does.
* `Told.sessionLogon?`: what a sequence of messages does to the index.
* `logons_follow_messages`: a session belongs to the user of its last logon
  that no logout has followed; a message that concerns no session is passed
  over.
-/

set_option autoImplicit false

namespace Backplane.Node

open Access (Logon)
open Bus (Message Caller)

/-! ### Messages about sessions -/

/-- A value that stands for an integer of 64 bits: the integer, or a text that
writes it. -/
inductive CountsAs : Json → Int → Prop where
  | number {n : Int} (hlow : -2 ^ 63 ≤ n) (hhigh : n < 2 ^ 63) : CountsAs (.number (.integer n)) n
  | text {s : String} {n : Int} (hwritten : Text.IsInteger s.toList n) (hlow : -2 ^ 63 ≤ n)
    (hhigh : n < 2 ^ 63) : CountsAs (.string s) n

/-- The message names a session, by a text that is not empty. -/
structure NamesSession (m : Message Listener) (session : String) : Prop where
  value_eq : m.context.get? Bus.keys.session = some (.string session)
  ne_empty : session ≠ ""

/-- A well-formed logon. A user without a name in the message has the empty
one. -/
structure Announces (m : Message Listener) (session : String) (l : Logon) : Prop where
  id_eq : m.id = .userLogon
  names : NamesSession m session
  userId : ∃ v, m.context.get? Bus.keys.userId = some v ∧ CountsAs v l.userId
  userName : m.context.get? Bus.keys.userName = some (.string l.userName) ∨
    (∀ name, m.context.get? Bus.keys.userName ≠ some (.string name)) ∧ l.userName = ""

/-- A well-formed logout. -/
structure Ends (m : Message Listener) (session : String) : Prop where
  id_eq : m.id = .userLogout
  names : NamesSession m session

/-- The message is a well-formed logon or logout of the session. -/
def Concerns (m : Message Listener) (session : String) : Prop :=
  (∃ l, Announces m session l) ∨ Ends m session

variable {m : Message Listener} {session : String} {l : Logon}

theorem signed?_eq_some_iff {v : Json} {n : Int} : v.signed? = some n ↔ CountsAs v n := by
  constructor
  · intro h
    cases v with
    | number k =>
      cases k with
      | integer k =>
        obtain ⟨hfits, hk⟩ := Option.ite_none_right_eq_some.mp h
        cases hk
        obtain ⟨hlow, hhigh⟩ := Text.fitsSigned_iff.mp hfits
        exact .number hlow hhigh
      | decimal literal => cases h
    | string s =>
      obtain ⟨hwritten, hfits⟩ := Text.signed?_eq_some_iff.mp h
      obtain ⟨hlow, hhigh⟩ := Text.fitsSigned_iff.mp hfits
      exact .text hwritten hlow hhigh
    | null | bool b | array items | object members => cases h
  · intro h
    cases h with
    | number hlow hhigh => exact if_pos (Text.fitsSigned_iff.mpr ⟨hlow, hhigh⟩)
    | text hwritten hlow hhigh =>
      exact Text.signed?_eq_some_iff.mpr ⟨hwritten, Text.fitsSigned_iff.mpr ⟨hlow, hhigh⟩⟩

theorem text?_eq_some_iff {c : Bus.Context Listener} {key s : String} :
    c.text? key = some s ↔ c.get? key = some (.string s) := by
  unfold Bus.Context.text?
  rcases c.get? key with _ | v
  · simp
  · cases v <;> simp [Json.text?]

theorem sessionOf_eq_ok_iff : sessionOf m = .ok session ↔ NamesSession m session := by
  unfold sessionOf
  constructor
  · intro h
    split at h
    · rename_i hs
      split at h
      · cases h
      · rename_i hne
        cases h
        exact ⟨text?_eq_some_iff.mp hs, fun heq => hne (heq ▸ rfl)⟩
    · cases h
  · intro h
    rw [text?_eq_some_iff.mpr h.value_eq]
    exact if_neg (by simpa using h.ne_empty)

/-- The name of a user is the text that the message has for it, and empty if it
has none. -/
theorem getD_text?_iff {c : Bus.Context Listener} {key s : String} :
    (c.text? key).getD "" = s ↔ c.get? key = some (.string s) ∨
      (∀ t, c.get? key ≠ some (.string t)) ∧ s = "" := by
  cases htext : c.text? key with
  | some t =>
    have hget := text?_eq_some_iff.mp htext
    simp [hget]
  | none =>
    have hget : ∀ t, c.get? key ≠ some (.string t) := by
      intro t ht
      rw [text?_eq_some_iff.mpr ht] at htext
      cases htext
    constructor
    · intro h
      exact .inr ⟨hget, h.symm⟩
    · rintro (h | ⟨_, rfl⟩)
      · exact absurd h (hget s)
      · rfl

theorem logonOf_eq (m : Message Listener) : logonOf m = (sessionOf m).bind fun session =>
    match m.context.signed? Bus.keys.userId with
    | none => .error (.listenerFailed m.id "missing userID")
    | some userId => .ok (session, ⟨userId, (m.context.text? Bus.keys.userName).getD ""⟩) :=
  rfl

theorem logonOf_eq_ok_iff : logonOf m = .ok (session, l) ↔ NamesSession m session ∧
    m.context.signed? Bus.keys.userId = some l.userId ∧
    (m.context.text? Bus.keys.userName).getD "" = l.userName := by
  obtain ⟨userId, userName⟩ := l
  rw [logonOf_eq, ← sessionOf_eq_ok_iff]
  generalize (m.context.text? Bus.keys.userName).getD "" = name
  rcases sessionOf m with e | named
  · simp [Except.bind]
  · cases m.context.signed? Bus.keys.userId with
    | none => simp [Except.bind]
    | some n => simp [Except.bind]

/-- What the keeper takes for a logon is a well-formed one. -/
theorem announces_iff :
    Announces m session l ↔ m.id = .userLogon ∧ logonOf m = .ok (session, l) := by
  have hid : m.context.signed? Bus.keys.userId = some l.userId ↔
      ∃ v, m.context.get? Bus.keys.userId = some v ∧ CountsAs v l.userId := by
    unfold Bus.Context.signed?
    rw [Option.bind_eq_some_iff]
    exact exists_congr fun v => and_congr_right fun _ => signed?_eq_some_iff
  rw [logonOf_eq_ok_iff, hid, getD_text?_iff]
  constructor
  · intro h
    exact ⟨h.id_eq, h.names, h.userId, h.userName⟩
  · rintro ⟨h, hnames, huserId, huserName⟩
    exact ⟨h, hnames, huserId, huserName⟩

/-- What the keeper takes for a logout is a well-formed one. -/
theorem ends_iff : Ends m session ↔ m.id = .userLogout ∧ sessionOf m = .ok session := by
  rw [sessionOf_eq_ok_iff]
  exact ⟨fun h => ⟨h.id_eq, h.names⟩, fun h => ⟨h.1, h.2⟩⟩

/-- Whether a message concerns a session can be told from what the keeper takes
it for. -/
theorem concerns_iff : Concerns m session ↔
    m.id = .userLogon ∧ (logonOf m).toOption.map Prod.fst = some session ∨
      m.id = .userLogout ∧ (sessionOf m).toOption = some session := by
  have hlogon : (∃ l, logonOf m = .ok (session, l)) ↔
      (logonOf m).toOption.map Prod.fst = some session := by
    rcases logonOf m with e | ⟨session', l⟩ <;> simp [Except.toOption]
  have hlogout : sessionOf m = .ok session ↔ (sessionOf m).toOption = some session := by
    rcases sessionOf m with e | session' <;> simp [Except.toOption]
  unfold Concerns
  simp only [announces_iff, ends_iff, exists_and_left, hlogon, hlogout]

instance (m : Message Listener) (session : String) : Decidable (Concerns m session) :=
  decidable_of_iff _ concerns_iff.symm

/-- No message is both a logon and a logout. -/
theorem not_ends_of_logon (h : m.id = .userLogon) : ¬ Ends m session := by
  intro hends
  rw [hends.id_eq] at h
  exact absurd h (by decide)

/-! ### What the keeper makes of a message -/

/-- The keeper does not put an end to a dispatch. -/
theorem countedAs_keepSessions (m : Message Listener) (n : Node) :
    (keepSessions m n).1.countedAs = 0 := by
  unfold keepSessions
  split
  · cases logonOf m <;> rfl
  · split
    · cases sessionOf m <;> rfl
    · split <;> rfl

theorem listenerFailed_of_sessionOf {e : Bus.Error} (h : sessionOf m = .error e) :
    ∃ reason, e = .listenerFailed m.id reason := by
  unfold sessionOf at h
  split at h
  · split at h <;> cases h
    exact ⟨_, rfl⟩
  · cases h
    exact ⟨_, rfl⟩

theorem listenerFailed_of_logonOf {e : Bus.Error} (h : logonOf m = .error e) :
    ∃ reason, e = .listenerFailed m.id reason := by
  rw [logonOf_eq] at h
  cases hsession : sessionOf m with
  | error e' =>
    rw [hsession] at h
    cases h
    exact listenerFailed_of_sessionOf hsession
  | ok session =>
    rw [hsession, Except.bind] at h
    split at h <;> cases h
    exact ⟨_, rfl⟩

/-- A logon or a logout that is not well-formed is a failure of the keeper,
before it has done anything. -/
theorem keepSessions_malformed (hno : ∀ session, ¬ Concerns m session)
    (hid : m.id = .userLogon ∨ m.id = .userLogout) :
    ∃ reason, ∀ n, keepSessions m n = (.failure (.listenerFailed m.id reason), n) := by
  rcases hid with hid | hid
  · cases hlogon : logonOf m with
    | ok announced => exact absurd (.inl ⟨_, announces_iff.mpr ⟨hid, hlogon⟩⟩) (hno announced.1)
    | error e =>
      obtain ⟨reason, rfl⟩ := listenerFailed_of_logonOf hlogon
      refine ⟨reason, fun n => ?_⟩
      unfold keepSessions
      rw [if_pos hid, hlogon]
  · cases hsession : sessionOf m with
    | ok session => exact absurd (.inr (ends_iff.mpr ⟨hid, hsession⟩)) (hno session)
    | error e =>
      obtain ⟨reason, rfl⟩ := listenerFailed_of_sessionOf hsession
      refine ⟨reason, fun n => ?_⟩
      unfold keepSessions
      rw [if_neg (by rw [hid]; decide), if_pos hid, hsession]

/-- A message that concerns no session leaves the node as it is, unless it is
the time to purge. -/
theorem keepSessions_unconcerned (hno : ∀ session, ¬ Concerns m session)
    (hidle : m.id ≠ .idle10) (n : Node) : (keepSessions m n).2 = n := by
  by_cases hid : m.id = .userLogon ∨ m.id = .userLogout
  · obtain ⟨reason, h⟩ := keepSessions_malformed hno hid
    rw [h]
  · obtain ⟨hon, hout⟩ := not_or.mp hid
    unfold keepSessions
    rw [if_neg hon, if_neg hout, if_neg hidle]

/-- What one message does to the index. -/
theorem sessionLogon?_receive (s : Access.Service) (m : Message Listener) (session : String)
    (l : Logon) : (s.receive m).sessionLogon? session = some l ↔
      Announces m session l ∨ s.sessionLogon? session = some l ∧ ¬ Concerns m session := by
  -- A logon writes one entry, a logout drops one, and a purge is about clients only.
  unfold Access.Service.sessionLogon? Access.Service.receive Concerns
  by_cases hon : m.id = .userLogon
  · rw [if_pos hon]
    simp only [announces_iff, hon, true_and, not_ends_of_logon hon, or_false]
    cases logonOf m with
    | error e => simp
    | ok announced =>
      obtain ⟨session', l'⟩ := announced
      show (s.sessions.insert session' l').get? session = some l ↔ _
      rw [Table.get?_insert]
      by_cases heq : session = session'
      · simp [heq]
      · simp [heq, Ne.symm heq]
  · have hnone : ∀ l, ¬ Announces m session l := fun l h => hon h.id_eq
    rw [if_neg hon]
    by_cases hout : m.id = .userLogout
    · rw [if_pos hout]
      simp only [hnone, exists_false, false_or, ends_iff, hout, true_and]
      cases sessionOf m with
      | error e => simp
      | ok session' =>
        show (s.registerLogout session').2.sessions.get? session = some l ↔ _
        rw [(Access.Service.keeps_registerLogout s session').sessions_eq, Table.get?_erase]
        by_cases heq : session = session'
        · simp [heq]
        · simp [heq, Ne.symm heq]
    · have hends : ¬ Ends m session := fun h => hout h.id_eq
      rw [if_neg hout]
      simp only [hnone, exists_false, false_or, hends, not_false_eq_true, and_true]
      split
      · rw [(Access.Service.keeps_purge s).sessions_eq]
      · rfl

/-- The same of the keeper, whose news may have been taken meanwhile. -/
theorem sessionLogon?_keepSessions (m : Message Listener) (n : Node) (session : String) (l : Logon) :
    (keepSessions m n).2.host.access.sessionLogon? session = some l ↔
      Announces m session l ∨
        n.host.access.sessionLogon? session = some l ∧ ¬ Concerns m session := by
  have hsame : (keepSessions m n).2.host.access.sessionLogon? session
      = (n.host.access.receive m).sessionLogon? session := by
    rcases Access.access_keepSessions m n with h | h <;> rw [h] <;> rfl
  rw [hsame, sessionLogon?_receive]

/-! ### Dispatches -/

/-- The calls of some listeners for a message leave the access service as it
is. -/
def Spares (call : Caller Listener Listener Services) (m : Message Listener) (ls : List Listener)
    (n : Node) : Prop :=
  (Bus.callAll (fun l => call l m) ls n).2.host.access = n.host.access

/-- Listeners that never touch the access service spare it. -/
theorem spares_of_forall {call : Caller Listener Listener Services} {ls : List Listener}
    (h : ∀ l ∈ ls, ∀ n, (call l m n).2.host.access = n.host.access) (n : Node) :
    Spares call m ls n := by
  unfold Spares
  induction ls generalizing n with
  | nil => rfl
  | cons l rest ih =>
    obtain ⟨hl, hrest⟩ := List.forall_mem_cons.mp h
    by_cases hzero : (call l m n).1.countedAs = 0
    · rw [Bus.callAll_cons_zero rest hzero]
      exact (ih hrest _).trans (hl n)
    · rw [Bus.callAll_cons_veto rest hzero]
      exact hl n

/-- In the dispatch of the message the session keeper is called, between other
listeners. None before it vetoes the message, and nobody else acts on the access
service, the post actions included. -/
structure Heard (call : Caller Listener Listener Services) (m : Message Listener)
    (before after : List Listener) (n : Node) : Prop where
  call_eq : call .sessionKeeper m = keepSessions m
  listeners_eq : n.bus.listeners.values = before ++ .sessionKeeper :: after
  unvetoed : (Bus.callAll (fun l => call l m) before n).1 = 0
  spares_before : Spares call m before n
  spares_after : Spares call m after
    (Bus.callAll (fun l => call l m) (before ++ [.sessionKeeper]) n).2
  spares_posts : ∀ n', (Bus.callAll (fun l => call l m) n.bus.listeners.values n).2 = n' →
    (Bus.callPostActions (fun l => call l m) m.context.postActions n').2.host.access
      = n'.host.access

variable {call : Caller Listener Listener Services} {before after : List Listener} {n : Node}

/-- The keeper is called, and the dispatch goes on with the listeners after
it. -/
theorem Heard.callAll_keeper (h : Heard call m before after n) (rest : List Listener) :
    Bus.callAll (fun l => call l m) (before ++ .sessionKeeper :: rest) n
      = Bus.callAll (fun l => call l m) rest
          (keepSessions m (Bus.callAll (fun l => call l m) before n).2).2 := by
  let n₁ := (Bus.callAll (fun l => call l m) before n).2
  have hzero : (call .sessionKeeper m n₁).1.countedAs = 0 := by
    rw [h.call_eq]
    exact countedAs_keepSessions m n₁
  have hgo : Bus.callAll (fun l => call l m) (.sessionKeeper :: rest) n₁
      = Bus.callAll (fun l => call l m) rest (call .sessionKeeper m n₁).2 :=
    Bus.callAll_cons_zero rest hzero
  rw [Bus.callAll_append_zero _ h.unvetoed, hgo, h.call_eq]

/-- A dispatch does to the access service what the keeper does, at a moment when
the service is as it was at first. -/
theorem Heard.access_dispatch (h : Heard call m before after n) :
    ∃ n₁ : Node, n₁.host.access = n.host.access ∧
      (Bus.dispatch call m n).2.host.access = (keepSessions m n₁).2.host.access := by
  refine ⟨(Bus.callAll (fun l => call l m) before n).2, h.spares_before, ?_⟩
  have hafter := h.spares_after
  -- The listeners after the keeper start from where it ended.
  rw [Spares, h.callAll_keeper [], Bus.callAll] at hafter
  rw [Bus.dispatch_snd, h.spares_posts _ rfl, h.listeners_eq, h.callAll_keeper after, hafter]

/-- A message that concerns no session is dispatched as if the keeper were not
there. -/
theorem Heard.callAll_unconcerned (h : Heard call m before after n)
    (hno : ∀ session, ¬ Concerns m session) (hidle : m.id ≠ .idle10) :
    Bus.callAll (fun l => call l m) n.bus.listeners.values n
      = Bus.callAll (fun l => call l m) (before ++ after) n := by
  rw [h.listeners_eq, h.callAll_keeper after, keepSessions_unconcerned hno hidle,
    Bus.callAll_append_zero after h.unvetoed]

/-! ### Sequences of messages -/

/-- Messages are dispatched to a node, oldest first; each is heard by the session
keeper. Between them, whatever is not about sessions may happen to the node. -/
inductive Told (call : Caller Listener Listener Services) (start : Node) :
    List (Message Listener) → Node → Prop where
  | start : Told call start [] start
  | dispatch {ms : List (Message Listener)} {n : Node} {m : Message Listener}
    {before after : List Listener} (htold : Told call start ms n)
    (hheard : Heard call m before after n) :
    Told call start (ms ++ [m]) (Bus.dispatch call m n).2
  | meanwhile {ms : List (Message Listener)} {n n' : Node} (htold : Told call start ms n)
    (hsame : n'.host.access.sessions = n.host.access.sessions) : Told call start ms n'

/-- So are the messages told that the worker of the bus takes out of the
queue. -/
theorem Told.deliver {start n : Node} {ms : List (Message Listener)} (h : Told call start ms n)
    (tiers : List Bus.Tier) (e : Bus.Envelope Listener) (now : Nat)
    (hheard : Heard call e.message before after (n.setWorker .calling)) :
    Told call start (ms ++ [e.message]) (Bus.deliver call tiers e now n) := by
  -- The worker changes the bus only, before and after the dispatch.
  have hcalling : Told call start ms (n.setWorker .calling) := h.meanwhile rfl
  refine (hcalling.dispatch hheard).meanwhile ?_
  unfold Bus.deliver
  rcases Bus.dispatch call e.message (n.setWorker .calling) with ⟨_ | _, _⟩ <;> rfl

/-- The last message that concerns the session is a logon of this user. -/
def LastLogon (ms : List (Message Listener)) (session : String) (l : Logon) : Prop :=
  ∃ earlier m later, ms = earlier ++ m :: later ∧ Announces m session l ∧
    ∀ m' ∈ later, ¬ Concerns m' session

/-- A message that concerns the session has the last word about it. -/
theorem lastLogon_append {ms : List (Message Listener)} :
    LastLogon (ms ++ [m]) session l ↔
      Announces m session l ∨ LastLogon ms session l ∧ ¬ Concerns m session := by
  constructor
  · rintro ⟨earlier, m₀, later, hsplit, hlogon, hlater⟩
    -- The last logon is the new message, or one of those before it.
    rcases List.eq_nil_or_concat' later with rfl | ⟨later, m', rfl⟩
    · obtain ⟨rfl, hlast⟩ := List.append_inj' hsplit rfl
      cases hlast
      exact .inl hlogon
    · rw [← List.cons_append, ← List.append_assoc] at hsplit
      obtain ⟨rfl, hlast⟩ := List.append_inj' hsplit rfl
      cases hlast
      refine .inr ⟨⟨earlier, m₀, later, rfl, hlogon, fun m' hm' => ?_⟩, hlater m (by simp)⟩
      exact hlater m' (List.mem_append_left _ hm')
  · rintro (hlogon | ⟨⟨earlier, m₀, later, rfl, hlogon, hlater⟩, hno⟩)
    · exact ⟨ms, m, [], rfl, hlogon, by simp⟩
    · refine ⟨earlier, m₀, later ++ [m], by simp, hlogon, fun m' hm' => ?_⟩
      rcases List.mem_append.mp hm' with hm' | hm'
      · exact hlater m' hm'
      · rw [List.mem_singleton.mp hm']
        exact hno

/-- After a sequence of messages a session belongs to the user of its last logon
that no logout has followed, or still to the user of before. -/
theorem Told.sessionLogon? {start n : Node} {ms : List (Message Listener)}
    (h : Told call start ms n) (session : String) (l : Logon) :
    n.host.access.sessionLogon? session = some l ↔ LastLogon ms session l ∨
      start.host.access.sessionLogon? session = some l ∧ ∀ m ∈ ms, ¬ Concerns m session := by
  induction h with
  | start =>
    have hnone : ¬ LastLogon [] session l := by
      rintro ⟨earlier, m, later, hsplit, _⟩
      simp at hsplit
    simp [hnone]
  | @dispatch ms n m before after _ hheard ih =>
    -- The keeper acts on the service as it was left by the messages before.
    obtain ⟨n₁, hsame, haccess⟩ := hheard.access_dispatch
    rw [haccess, sessionLogon?_keepSessions, hsame, ih, lastLogon_append]
    simp only [List.forall_mem_append, List.forall_mem_singleton]
    tauto
  | meanwhile _ hsame ih =>
    rw [← ih, Access.Service.sessionLogon?, hsame]
    rfl

/-- The sessions of a node follow the messages that are dispatched to it. A
session belongs to the user of its last logon that no logout has followed; if
no message concerns it, it belongs to whom it did before, and to nobody if there
were no sessions at first. A message that concerns no session, at another time
than that of a purge, leaves the whole service as it is. The dispatch goes on
then as if the keeper were not there, although a logon or logout that is not
well-formed is a failure of the keeper. -/
theorem logons_follow_messages (call : Caller Listener Listener Services) :
    (∀ start ms n, Told call start ms n →
      (∀ session l, n.host.access.sessionLogon? session = some l ↔ LastLogon ms session l ∨
        start.host.access.sessionLogon? session = some l ∧ ∀ m ∈ ms, ¬ Concerns m session) ∧
      (start.host.access.sessions = ∅ → ∀ session l,
        n.host.access.sessionLogon? session = some l ↔ LastLogon ms session l)) ∧
    (∀ m before after n, Heard call m before after n → (∀ session, ¬ Concerns m session) →
      m.id ≠ .idle10 →
      (Bus.dispatch call m n).2.host.access = n.host.access ∧
      Bus.callAll (fun l => call l m) n.bus.listeners.values n
        = Bus.callAll (fun l => call l m) (before ++ after) n ∧
      ((Bus.callAll (fun l => call l m) (before ++ after) n).1 = 0 →
        (∀ l ∈ m.context.postActions, ∀ n' text, (call l m n').1 ≠ .panic text) →
        (Bus.dispatch call m n).1 = .ok 0) ∧
      (m.id = .userLogon ∨ m.id = .userLogout →
        ∃ reason, ∀ n', call .sessionKeeper m n'
          = (.failure (.listenerFailed m.id reason), n'))) := by
  refine ⟨fun start ms n htold => ⟨htold.sessionLogon?, fun hempty session l => ?_⟩,
    fun m before after n hheard hno hidle => ⟨?_, ?_, fun hzero hcalm => ?_, fun hid => ?_⟩⟩
  · have hnone : start.host.access.sessionLogon? session = none := by
      rw [Access.Service.sessionLogon?, hempty, Table.get?_empty]
    rw [htold.sessionLogon?, hnone]
    simp
  · obtain ⟨n₁, hsame, haccess⟩ := hheard.access_dispatch
    rw [haccess, keepSessions_unconcerned hno hidle, hsame]
  · exact hheard.callAll_unconcerned hno hidle
  · rw [← hheard.callAll_unconcerned hno hidle] at hzero
    rw [Bus.dispatch_of_calm hcalm, hzero]
  · rw [hheard.call_eq]
    exact keepSessions_malformed hno hid

/-- A listener that fails on every message. -/
def broken : Listener := .scripted "broken" [.mk none [] (.failure "out of order")] []

/-- A listener that vetoes every logout. -/
def stubborn : Listener := .scripted "stubborn" [.mk (some [.userLogout]) [] (.code 5)] []

/-- A node whose session keeper is called between these two. -/
def crowded : Node where
  bus := (((({} : Bus Listener Listener).register "broken" broken).register "usher"
    stubborn).register sessionKeeperName .sessionKeeper)
  host := { access := .start .trial {} ⟨[]⟩ 0 }

/-- A message of some values. -/
def said (id : Bus.MessageId) (values : List (String × Json)) : Message Listener :=
  { id, context := { values := .ofList values } }

/-- A logon by a numeral. -/
def marioComes : Message Listener :=
  said .userLogon [(Bus.keys.session, .string "s1"), (Bus.keys.userId, .string "+07"),
    (Bus.keys.userName, .string "mario")]

/-- A logon without the name of a user. -/
def guestComes : Message Listener :=
  said .userLogon [(Bus.keys.session, .string "s2"), (Bus.keys.userId, .ofInt 8),
    (Bus.keys.userName, .null)]

/-- A logon whose user is no integer. -/
def halfUserComes : Message Listener :=
  said .userLogon [(Bus.keys.session, .string "s1"),
    (Bus.keys.userId, .number (.decimal "9.0"))]

/-- A logout. -/
def guestGoes : Message Listener := said .userLogout [(Bus.keys.session, .string "s2")]

/-- What is said at the node, with a logon that is not well-formed in between. -/
def gossip : List (Message Listener) := [marioComes, guestComes, halfUserComes, guestGoes]

/-- Every message is heard, as long as nobody comes or goes. -/
theorem heard_crowded {m : Message Listener} (hposts : m.context.postActions = []) {n : Node}
    (h : n.bus.listeners.values = [broken, .sessionKeeper, stubborn]) :
    Heard (Node.call 1) m [broken] [stubborn] n where
  call_eq := rfl
  listeners_eq := h
  unvetoed := rfl
  spares_before := rfl
  spares_after := by
    refine spares_of_forall (fun l hl n' => ?_) _
    rw [List.mem_singleton.mp hl]
    show (follow _ "stubborn" [.mk (some [.userLogout]) [] (.code 5)] [] m n').2.host.access = _
    unfold follow
    simp only
    -- It vetoes the message or not, and does nothing else.
    split
    · rfl
    · rename_i hfind
      have hrule := List.mem_singleton.mp (List.mem_of_find?_eq_some hfind)
      cases hrule
      rfl
  spares_posts := by
    rintro n' -
    rw [hposts]
    rfl

/-- The second logon for the first session does not count, and the guest has gone
whatever the veto. The message that is not well-formed is passed over. -/
theorem logons_follow_messages_crowded :
    (∃ n, Told (Node.call 1) crowded gossip n ∧
      n.host.access.sessionLogon? "s1" = some ⟨7, "mario"⟩ ∧
      n.host.access.sessionLogon? "s2" = none) ∧
    Heard (Node.call 1) halfUserComes [broken] [stubborn] crowded ∧
    (∀ session, ¬ Concerns halfUserComes session) ∧ halfUserComes.id ≠ .idle10 ∧
    (Bus.dispatch (Node.call 1) halfUserComes crowded).1 = .ok 0 ∧
    (Bus.dispatch (Node.call 1) halfUserComes crowded).2.host.access = crowded.host.access := by
  have hhalf : ∀ session, ¬ Concerns halfUserComes session := by
    intro session h
    rcases concerns_iff.mp h with ⟨_, h⟩ | ⟨h, _⟩
    · exact nomatch (show none = some session from h)
    · exact absurd h (by decide)
  obtain ⟨hfollow, hpass⟩ := logons_follow_messages (Node.call 1)
  refine ⟨?_, ?_⟩
  · have h₁ := Told.dispatch .start (heard_crowded (m := marioComes) rfl (n := crowded) rfl)
    have h₂ := h₁.dispatch (heard_crowded (m := guestComes) rfl rfl)
    have h₃ := h₂.dispatch (heard_crowded (m := halfUserComes) rfl rfl)
    have h₄ := h₃.dispatch (heard_crowded (m := guestGoes) rfl rfl)
    obtain ⟨-, hindex⟩ := hfollow crowded gossip _ h₄
    refine ⟨_, h₄, (hindex rfl "s1" ⟨7, "mario"⟩).mpr ?_, ?_⟩
    · refine ⟨[], marioComes, [guestComes, halfUserComes, guestGoes], rfl, ?_, ?_⟩
      · exact announces_iff.mpr ⟨rfl, rfl⟩
      · decide
    · refine Option.eq_none_iff_forall_ne_some.mpr fun l hl => ?_
      have hlast : LastLogon ([marioComes, guestComes, halfUserComes] ++ [guestGoes]) "s2" l :=
        (hindex rfl "s2" l).mp hl
      rcases lastLogon_append.mp hlast with hlogon | ⟨-, hno⟩
      · exact absurd hlogon.id_eq (by decide)
      · exact hno (by decide)
  · have hheard : Heard (Node.call 1) halfUserComes [broken] [stubborn] crowded :=
      heard_crowded rfl rfl
    have hid : halfUserComes.id ≠ .idle10 := by decide
    obtain ⟨hsame, _, hzero, _⟩ := hpass halfUserComes _ _ crowded hheard hhalf hid
    exact ⟨hheard, hhalf, hid, hzero rfl (by simp [halfUserComes, said]), hsame⟩

end Backplane.Node
