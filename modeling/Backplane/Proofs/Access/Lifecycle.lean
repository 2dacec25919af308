import Backplane.Proofs.Access.Departure
import Mathlib.Data.List.Count

/-!
# `Backplane.Proofs.Access.Lifecycle`: clients and what the bus is told of them

A node runs its access service by `withAccess`, which puts the news of every
operation on the bus. A `NodeHistory` is a list of such operations, and of
changes of the bus and of everything else on the node, to any state and at
any time. As long as the bus takes messages when the access service has news,
the messages about a client id tell whether there is a client of this id.
The main statements:

* `bus_foldl_postNews`: news stand at the end of the queue, in their order.
* `announced`: at every moment, the service is tidy with the news that were
  published.
* `life_cycle`: clients that were cleared, clients that are stored, and
  messages about them, at every moment.
* `keepSessions_eq`: what the session keeper does with a message is such an
  operation.
-/

set_option autoImplicit false

namespace Backplane

open Bus (Message MessageId)

/-! ### News on the bus -/

namespace Node

/-- The message of a piece of news names the client. -/
theorem text?_newsMessage (a : Access.Announcement) :
    (newsMessage a).context.text? Bus.keys.clientId = some a.clientId := by
  unfold newsMessage Bus.Context.text? Bus.Context.get?
  cases a.session <;> simp [Table.ofList, Table.get?_insert, Bus.keys, Json.text?]

/-- A bus that takes messages takes the news. -/
theorem bus_postNews {n : Node} (h : n.bus.accepts = true) (a : Access.Announcement) :
    ∃ e : Bus.Envelope Listener, e.message = newsMessage a ∧
      (n.postNews a).bus = { n.bus with queue := n.bus.queue ++ [e] } := by
  refine ⟨⟨newsMessage a, n.now, n.bus.settings.defaultDelay⟩, rfl, ?_⟩
  unfold postNews post Bus.send wakeWorker
  rw [h]
  simp only [if_true]
  split <;> rfl

theorem bus_foldl_postNews {n : Node} (h : n.bus.accepts = true)
    (news : List Access.Announcement) :
    ∃ es : List (Bus.Envelope Listener), es.map Bus.Envelope.message = news.map newsMessage ∧
      (news.foldl postNews n).bus = { n.bus with queue := n.bus.queue ++ es } := by
  induction news generalizing n with
  | nil => exact ⟨[], rfl, by rw [List.append_nil]; rfl⟩
  | cons a rest ih =>
    obtain ⟨e, he, hbus⟩ := bus_postNews h a
    obtain ⟨es, hes, hrest⟩ := @ih (n.postNews a) (by rw [hbus]; exact h)
    refine ⟨e :: es, by rw [List.map_cons, List.map_cons, he, hes], ?_⟩
    rw [List.foldl_cons, hrest, hbus]
    simp

/-- Of what is around the bus, sending news concerns the timeline alone. -/
theorem host_foldl_postNews (n : Node) (news : List Access.Announcement) :
    ∃ timeline, (news.foldl postNews n).host = { n.host with timeline } := by
  have hpost : ∀ (n : Node) a, ∃ timeline, (postNews n a).host = { n.host with timeline } := by
    intro n a
    unfold postNews post
    simp only
    split
    · unfold wakeWorker
      split
      · exact ⟨_, rfl⟩
      · exact ⟨_, rfl⟩
    · exact ⟨_, rfl⟩
  induction news generalizing n with
  | nil => exact ⟨_, rfl⟩
  | cons a rest ih =>
    obtain ⟨timeline, hfirst⟩ := hpost n a
    obtain ⟨timeline', hrest⟩ := ih (n.postNews a)
    exact ⟨timeline', by rw [List.foldl_cons, hrest, hfirst]⟩

end Node

namespace Access

/-! ### Histories of a node -/

/-- What can happen on a node. -/
inductive Happening where
  /-- The access service does something, and its news go out. -/
  | ask (e : Event)
  /-- Anything changes around the access service. -/
  | around (n : Node)

/-- The node after it. -/
def Happening.apply (n : Node) : Happening → Node
  | .ask e => (n.withAccess fun s => ((), s.step e)).2
  | .around n' =>
    { n' with host := { n'.host with access := n.host.access, announces := n.host.announces } }

/-- The history of a node whose access service is attached to the bus before
anything happens. -/
structure NodeHistory where
  settings : Settings
  directory : Directory
  keys : Key.Store
  clock : UInt64
  /-- The bus and the other services at first. -/
  node : Node
  happenings : List Happening

/-- The session keeper of a node asks the access service for what the event of
the message does. -/
theorem keepSessions_eq {n : Node} (hempty : n.host.access.outbox = [])
    (m : Message Node.Listener) :
    (Node.keepSessions m n).2 = (Happening.ask (.message m)).apply n := by
  -- If the service does nothing, nothing is sent.
  have hnothing : (n.withAccess fun s => ((), s)).2 = n := by
    obtain ⟨bus, host⟩ := n
    obtain ⟨_, _, _, _, access, _, _, _⟩ := host
    obtain ⟨_, _, _, _, _, _, _, _, _, outbox, _⟩ := access
    change outbox = [] at hempty
    subst hempty
    unfold Node.withAccess Node.deliverNews
    simp
  show _ = (n.withAccess fun s => ((), s.receive m)).2
  unfold Node.keepSessions Service.receive
  split
  · cases Node.logonOf m with
    | error e => exact hnothing.symm
    | ok announced => rfl
  · split
    · cases Node.sessionOf m with
      | error e => exact hnothing.symm
      | ok session => rfl
    · split
      · rfl
      · exact hnothing.symm

namespace NodeHistory

variable (h : NodeHistory) (n : Nat)

/-- The node after the first `n` happenings. -/
def after : Node :=
  (h.happenings.take n).foldl Happening.apply { h.node with
    host := { h.node.host with
      access := .start h.settings h.directory h.keys h.clock, announces := true } }

/-- The access service after the first `n` happenings. -/
def service : Service := (h.after n).host.access

/-- The messages that the access service has published by the first `n`
happenings: those that the bus has queued for it. -/
def published : Nat → List (Message Node.Listener)
  | 0 => []
  | n + 1 => published n ++ match h.happenings[n]? with
    | some (.ask _) =>
      ((h.after (n + 1)).bus.queue.drop (h.after n).bus.queue.length).map Bus.Envelope.message
    | _ => []

/-- The ids of the messages that were published about a client id. -/
def newsFor (clientId : String) : List MessageId :=
  ((h.published n).filter fun m => m.context.text? Bus.keys.clientId == some clientId).map
    Message.id

/-- Whenever the access service does something, the bus takes messages: it
has a listener, is open, and its worker has not panicked. -/
def Connected : Prop := ∀ (i : Nat) (e : Event),
  h.happenings[i]? = some (.ask e) → (h.after i).bus.accepts = true

/-- No caller clears a client. -/
def ClearsNone : Prop := ∀ (i : Nat) (r : ClientRef),
  h.happenings[i]? ≠ some (.ask (.clearAttributes r))

variable {h n}

theorem after_succ {x : Happening} (hx : h.happenings[n]? = some x) :
    h.after (n + 1) = x.apply (h.after n) := by
  unfold after
  rw [List.take_add_one, hx, Option.toList_some, List.foldl_append]
  rfl

theorem after_of_end (hx : h.happenings[n]? = none) : h.after (n + 1) = h.after n := by
  unfold after
  rw [List.take_add_one, hx, Option.toList_none, List.append_nil]

/-- What every happening keeps: the service is tidy with the news that have
been published, and none waits in its outbox. -/
structure Announced (h : NodeHistory) (n : Nat) (log : List Announcement) : Prop where
  tidy : (h.service n).Tidy log
  published_eq : h.published n = log.map Node.newsMessage
  outbox_eq : (h.service n).outbox = []
  announces : (h.after n).host.announces = true

/-- What a service does puts its news on the bus, and leaves it with an empty
outbox. -/
theorem announced_ask {log : List Announcement} {e : Event}
    (hx : h.happenings[n]? = some (.ask e)) (haccepts : (h.after n).bus.accepts = true)
    (hclear : ∀ r, e ≠ .clearAttributes r) (hlog : h.Announced n log) :
    ∃ log', h.Announced (n + 1) log' := by
  -- All news in the outbox are new ones.
  obtain ⟨more, houtbox, htidy⟩ : ∃ more, ((h.service n).step e).outbox = more ∧
      ((h.service n).step e).Tidy (log ++ more) := by
    by_cases htake : e = .takeNews
    · subst htake
      exact ⟨[], rfl, by rw [List.append_nil]; exact hlog.tidy.withOutbox []⟩
    · obtain ⟨more, houtbox, htidy⟩ := Service.lives_step _ hclear htake log hlog.tidy
      exact ⟨more, by rw [houtbox, hlog.outbox_eq, List.nil_append], htidy⟩
  let emptied : Node := { h.after n with
    host := { (h.after n).host with access := { (h.service n).step e with outbox := [] } } }
  have hafter : h.after (n + 1) = more.foldl Node.postNews emptied := by
    rw [after_succ hx]
    show (if (h.after n).host.announces then
      ((h.service n).step e).outbox.foldl Node.postNews emptied else emptied) = _
    rw [hlog.announces, if_pos rfl, houtbox]
  obtain ⟨es, hes, hbus⟩ := @Node.bus_foldl_postNews emptied haccepts more
  obtain ⟨timeline, hhost⟩ := Node.host_foldl_postNews emptied more
  have hservice : h.service (n + 1) = { (h.service n).step e with outbox := [] } := by
    unfold service
    rw [hafter, hhost]
    rfl
  -- What stands behind the queue of before are exactly the news.
  refine ⟨log ++ more, ?_, ?_, ?_, ?_⟩
  · rw [hservice]
    exact htidy.withOutbox []
  · rw [published, hx, hlog.published_eq, hafter, hbus, List.map_append, ← hes]
    show _ ++ ((((h.after n).bus.queue ++ es).drop (h.after n).bus.queue.length).map _) = _
    rw [List.drop_left]
  · rw [hservice]
  · rw [hafter, hhost]
    exact hlog.announces

/-- Otherwise nothing is published, and the service stays. -/
theorem Announced.succ {log : List Announcement} (hlog : h.Announced n log)
    (hservice : h.service (n + 1) = h.service n) (hpublished : h.published (n + 1) = h.published n)
    (hannounces : (h.after (n + 1)).host.announces = (h.after n).host.announces) :
    h.Announced (n + 1) log := by
  refine ⟨?_, hpublished.trans hlog.published_eq, ?_, hannounces.trans hlog.announces⟩
  · rw [hservice]
    exact hlog.tidy
  · rw [hservice]
    exact hlog.outbox_eq

theorem announced (hconnected : h.Connected) (hclears : h.ClearsNone) (n : Nat) :
    ∃ log, h.Announced n log := by
  induction n with
  | zero => exact ⟨[], Service.tidy_start _ _ _ _, rfl, rfl, rfl⟩
  | succ n ih =>
    obtain ⟨log, hlog⟩ := ih
    cases hx : h.happenings[n]? with
    | none =>
      have hafter := after_of_end hx
      refine ⟨log, hlog.succ (by unfold service; rw [hafter]) ?_ (by rw [hafter])⟩
      rw [published, hx]
      exact List.append_nil _
    | some x =>
      cases x with
      | ask e =>
        exact announced_ask hx (hconnected n e hx) (fun r heq => hclears n r (heq ▸ hx)) hlog
      | around n' =>
        have hafter := after_succ hx
        refine ⟨log, hlog.succ (by unfold service; rw [hafter]; rfl) ?_ (by rw [hafter]; rfl)⟩
        rw [published, hx]
        exact List.append_nil _

/-- The id of the message that tells of a coming or a going. -/
def newsId (issued : Bool) : MessageId := if issued then .tokenIssued else .tokenRemoved

theorem newsId_injective : Function.Injective newsId := by
  unfold Function.Injective
  decide

/-- The messages about a client id are its comings and goings. -/
theorem newsFor_eq {log : List Announcement} (hlog : h.Announced n log) (k : String) :
    h.newsFor n k = (turnsOf log k).map newsId := by
  unfold newsFor turnsOf
  rw [hlog.published_eq, List.filter_map, List.map_map, List.map_map]
  congr 1
  congr 1
  funext a
  show (_ == _) = _
  rw [Node.text?_newsMessage]
  rfl

/-- In every history of a node whose access service is attached to a bus that
takes its messages, and whose clients nobody else clears: a client has been
cleared if and only if it is not stored any more, every client is stored
under its client id, and the messages about a client id take turns. The
first one tells that a client came, and the last one tells so if and only if
there is one now. There is one message for each client that was made, and
one for each that was cleared. -/
theorem life_cycle (hconnected : h.Connected) (hclears : h.ClearsNone) (n : Nat) :
    (∀ r c, (h.service n).record? r = some c →
      (c.cleared = true ↔ ∀ k, ¬ (h.service n).clients.Holds k r)) ∧
    (∀ k r, (h.service n).clients.Holds k r →
      ∃ c, (h.service n).record? r = some c ∧ c.clientId = k) ∧
    ∀ k,
      (∀ i id, (h.newsFor n k)[i]? = some id →
        id = if i % 2 = 0 then MessageId.tokenIssued else MessageId.tokenRemoved) ∧
      ((h.newsFor n k).getLast? = some MessageId.tokenIssued ↔
        ∃ r, (h.service n).clients.Holds k r) ∧
      (h.newsFor n k).count MessageId.tokenIssued
        = (h.service n).records.countP (fun c => c.clientId == k) ∧
      (h.newsFor n k).count MessageId.tokenRemoved
        = (h.service n).records.countP (fun c => c.clientId == k && c.cleared) := by
  obtain ⟨log, hlog⟩ := announced hconnected hclears n
  have htidy := hlog.tidy
  refine ⟨fun r c hr => htidy.cleared_iff hr, fun k r hk => ?_, fun k => ⟨fun i id hid => ?_, ?_,
    ?_, ?_⟩⟩
  · obtain ⟨c, hc, hid, _⟩ := htidy.filed hk
    exact ⟨c, hc, hid⟩
  · rw [newsFor_eq hlog, List.getElem?_map, Option.map_eq_some_iff] at hid
    obtain ⟨issued, hissued, rfl⟩ := hid
    rw [(htidy.turns k).getElem?_eq hissued]
    simp [newsId]
  · have hlast : (h.newsFor n k).getLast? = some MessageId.tokenIssued ↔
        (turnsOf log k).getLast? = some true := by
      rw [newsFor_eq hlog, List.getLast?_map]
      exact (Option.map_injective newsId_injective).eq_iff' rfl
    rw [hlast, (htidy.turns k).getLast?_eq, Option.isSome_iff_exists]
    exact exists_congr fun r => (Cache.holds_iff htidy.ascending k r).symm
  · have hcount := List.count_map_of_injective (turnsOf log k) newsId newsId_injective true
    rw [newsFor_eq hlog]
    refine hcount.trans ((htidy.came k).trans ?_)
    unfold Service.marks
    rw [List.map_map, List.count_eq_countP, List.countP_map]
    rfl
  · have hcount := List.count_map_of_injective (turnsOf log k) newsId newsId_injective false
    rw [newsFor_eq hlog]
    refine hcount.trans ((htidy.went k).trans ?_)
    unfold Service.marks
    rw [List.count_eq_countP, List.countP_map]
    congr 1
    funext c
    show (c.clientId == k && c.cleared == true) = _
    cases c.cleared <;> rfl

/-- A client expires, which is seen when it is asked for, and comes again. -/
def comingAndGoing : NodeHistory where
  settings := { tokenTtl := 100 }
  directory := {}
  keys := ⟨[]⟩
  clock := 0
  node :=
    { bus := Bus.register { settings := {} } "a" .lockCollector
      host := { access := .start {} {} ⟨[]⟩ 0 } }
  happenings :=
    [.ask (.arrive "a" (.user { id := 7, name := "mario" })),
     .ask (.setClock 100),
     .ask (.look "a"),
     .ask (.arrive "a" (.user { id := 7, name := "mario" }))]

theorem life_cycle_comingAndGoing :
    comingAndGoing.Connected ∧ comingAndGoing.ClearsNone ∧
      comingAndGoing.newsFor 4 "a" = [110, 111, 110] ∧
      ∃ r, (comingAndGoing.service 4).clients.Holds "a" r := by
  have hconnected : comingAndGoing.Connected := by
    intro i e hx
    match i with
    | 0 | 1 | 2 | 3 => rfl
    | i + 4 => cases hx
  have hclears : comingAndGoing.ClearsNone := by
    intro i r hx
    match i with
    | 0 | 1 | 2 | 3 | i + 4 => cases hx
  have hnews : comingAndGoing.newsFor 4 "a" = [110, 111, 110] := by rfl
  obtain ⟨_, _, hturns⟩ := life_cycle hconnected hclears 4
  obtain ⟨_, hlast, _⟩ := hturns "a"
  exact ⟨hconnected, hclears, hnews, hlast.mp (by rw [hnews]; rfl)⟩

end NodeHistory

end Access

end Backplane
