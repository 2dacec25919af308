import Backplane.Proofs.Access.History
import Mathlib.Data.List.Basic
import Mathlib.Data.String.Basic

/-!
# `Backplane.Proofs.Access.Departure`: clients that come and go

A client comes when it is made: it is stored under its id and announced. It
goes when it leaves the cache, for whatever reason: another client is stored
in its place, a look-up or a logon finds it expired, it is removed, its
session ends, or a purge takes it. Then it has to be cleared, and its
departure announced, once. `Tidy` says what this comes to at any time, and
`Lives` that an operation keeps it so. The main statements:

* `Turns.getElem?_eq`, `Turns.getLast?_eq`: comings and goings that take
  turns.
* `lives_discardAll`: what has left the cache is discarded, in any number.
* `lives_store`, `lives_issue`: a new client is announced after the
  departures that make room for it.
* `lives_step`: every event keeps a service tidy, unless it clears a client
  that stays.
-/

set_option autoImplicit false

namespace Backplane.Access

/-! ### News of one client id -/

/-- Comings and goings that take turns, the first of them a coming. The flag
tells whether the last of them is a coming. -/
inductive Turns : List Bool → Bool → Prop where
  | nil : Turns [] false
  | came {l : List Bool} (h : Turns l false) : Turns (l ++ [true]) true
  | went {l : List Bool} (h : Turns l true) : Turns (l ++ [false]) false

namespace Turns

variable {l : List Bool} {b : Bool}

theorem length_mod (h : Turns l b) : l.length % 2 = b.toNat := by
  induction h with
  | nil => rfl
  | came _ ih | went _ ih =>
    rw [List.length_append, Nat.add_mod, ih]
    rfl

/-- Every second one is a going. -/
theorem getElem?_eq (h : Turns l b) {i : Nat} {x : Bool} (hx : l[i]? = some x) :
    x = decide (i % 2 = 0) := by
  induction h with
  | nil => cases hx
  | @came l h ih | @went l h ih =>
    have hlength := h.length_mod
    rw [List.getElem?_append] at hx
    split at hx
    · exact ih hx
    · rename_i hle
      obtain ⟨hi, hget⟩ := List.getElem?_eq_some_iff.mp hx
      rw [List.length_singleton, Nat.lt_one_iff] at hi
      rw [List.getElem_singleton] at hget
      have hlast : i = l.length := by omega
      rw [hlast, hlength, ← hget]
      rfl

theorem getLast?_eq (h : Turns l b) : l.getLast? = some true ↔ b = true := by
  cases h with
  | nil => simp
  | came | went => simp

end Turns

/-- Which news of a client id are comings. -/
def turnsOf (log : List Announcement) (clientId : String) : List Bool :=
  (log.filter fun a => a.clientId == clientId).map Announcement.issued

theorem turnsOf_append (log more : List Announcement) (k : String) :
    turnsOf (log ++ more) k = turnsOf log k ++ turnsOf more k := by
  unfold turnsOf
  rw [List.filter_append, List.map_append]

theorem turnsOf_concat (log : List Announcement) (a : Announcement) (k : String) :
    turnsOf (log ++ [a]) k = turnsOf log k ++ if a.clientId = k then [a.issued] else [] := by
  rw [turnsOf_append]
  unfold turnsOf
  by_cases h : a.clientId = k <;> simp [h]

namespace Service

variable {s s₁ s' : Service} {log : List Announcement} {clients : Cache String ClientRef}
  {k : String} {r : ClientRef} {c : Client}

/-- The client ids of all records, each with whether the client was cleared. -/
def marks (s : Service) : List (String × Bool) := s.records.map fun c => (c.clientId, c.cleared)

/-- The records, the cache and the news of a service agree. -/
structure Tidy (s : Service) (log : List Announcement) : Prop where
  ascending : s.clients.table.Ascending
  /-- The clients that are stored, each under its id, are those that have not
  been cleared. -/
  stored_iff : ∀ k r, s.clients.value? k = some r ↔ s.marks[r]? = some (k, false)
  /-- The last news of an id tells whether there is a client. -/
  turns : ∀ k, Turns (turnsOf log k) (s.clients.value? k).isSome
  came : ∀ k, (turnsOf log k).count true = (s.marks.map Prod.fst).count k
  went : ∀ k, (turnsOf log k).count false = s.marks.count (k, true)

theorem marks_getElem? (s : Service) (r : ClientRef) :
    s.marks[r]? = (s.record? r).map fun c => (c.clientId, c.cleared) :=
  List.getElem?_map ..

theorem tidy_start (settings : Settings) (directory : Directory) (keys : Key.Store)
    (clock : UInt64) : (start settings directory keys clock).Tidy [] :=
  ⟨Table.ascending_empty, fun _ _ => ⟨fun h => (nomatch h), fun h => nomatch h⟩, fun _ => .nil,
    fun _ => rfl, fun _ => rfl⟩

/-- Nothing of this is about the outbox. -/
theorem Tidy.withOutbox (h : s.Tidy log) (outbox : List Announcement) :
    Tidy { s with outbox } log :=
  ⟨h.ascending, h.stored_iff, h.turns, h.came, h.went⟩

/-- Every client that is stored is stored under its client id. -/
theorem Tidy.filed (h : s.Tidy log) (hk : s.clients.Holds k r) :
    ∃ c, s.record? r = some c ∧ c.clientId = k ∧ c.cleared = false := by
  rw [Cache.holds_iff h.ascending, h.stored_iff, marks_getElem?, Option.map_eq_some_iff] at hk
  obtain ⟨c, hc, hmark⟩ := hk
  exact ⟨c, hc, (Prod.ext_iff.mp hmark).1, (Prod.ext_iff.mp hmark).2⟩

/-- A client has been cleared if and only if it is not stored. -/
theorem Tidy.cleared_iff (h : s.Tidy log) (hr : s.record? r = some c) :
    c.cleared = true ↔ ∀ k, ¬ s.clients.Holds k r := by
  constructor
  · intro hcleared k hk
    obtain ⟨c', hc', _, huncleared⟩ := h.filed hk
    rw [hr] at hc'
    cases hc'
    rw [hcleared] at huncleared
    cases huncleared
  · intro hnone
    by_contra huncleared
    rw [Bool.not_eq_true] at huncleared
    refine hnone c.clientId ((Cache.holds_iff h.ascending _ _).mpr ((h.stored_iff _ _).mpr ?_))
    rw [marks_getElem?, hr, ← huncleared]
    rfl

/-- An operation that keeps a service tidy, with the news that it makes. -/
def Lives (s s' : Service) : Prop :=
  ∀ log, s.Tidy log → ∃ more, s'.outbox = s.outbox ++ more ∧ s'.Tidy (log ++ more)

theorem Lives.refl (s : Service) : s.Lives s := fun _ h =>
  ⟨[], (List.append_nil _).symm, by rwa [List.append_nil]⟩

theorem Lives.trans (h : s.Lives s₁) (h' : s₁.Lives s') : s.Lives s' := by
  intro log htidy
  obtain ⟨more, houtbox, htidy₁⟩ := h log htidy
  obtain ⟨more', houtbox', htidy'⟩ := h' _ htidy₁
  refine ⟨more ++ more', ?_, ?_⟩
  · rw [houtbox', houtbox, List.append_assoc]
  · rwa [← List.append_assoc]

/-- The order of the cache may be taken for granted. -/
theorem lives_of_ascending (h : s.clients.table.Ascending → s.Lives s') : s.Lives s' :=
  fun log htidy => h htidy.ascending log htidy

/-! ### Nobody comes or goes -/

/-- No client comes or goes, and none is cleared. -/
theorem lives_of_marks_eq (hmarks : s'.marks = s.marks)
    (hclients : Cache.Drops s.clients s'.clients []) (houtbox : s'.outbox = s.outbox) :
    s.Lives s' := by
  intro log htidy
  have hvalue : ∀ k, s'.clients.value? k = s.clients.value? k := fun k => by
    simpa using hclients.value?_eq k
  refine ⟨[], by rw [houtbox, List.append_nil], ?_⟩
  rw [List.append_nil]
  refine ⟨hclients.ascending, fun k r => ?_, fun k => ?_, fun k => ?_, fun k => ?_⟩
  · rw [hvalue, hmarks]
    exact htidy.stored_iff k r
  · rw [hvalue]
    exact htidy.turns k
  · rw [hmarks]
    exact htidy.came k
  · rw [hmarks]
    exact htidy.went k

/-- Neither the records nor the cache nor the outbox change. -/
theorem lives_of_marks (hmarks : s'.marks = s.marks) (hclients : s'.clients = s.clients)
    (houtbox : s'.outbox = s.outbox) : s.Lives s' :=
  lives_of_ascending fun hasc =>
    lives_of_marks_eq hmarks (by rw [hclients]; exact .refl hasc) houtbox

theorem lives_touch (s : Service) (r : ClientRef) : s.Lives (s.touch r) := by
  refine lives_of_marks (List.ext_getElem? fun r' => ?_) rfl rfl
  show ((s.records.modify r _).map _)[r']? = (s.records.map _)[r']?
  rw [List.getElem?_map, List.getElem?_map, List.getElem?_modify]
  cases s.records[r']? with
  | none => rfl
  | some c =>
    by_cases heq : r = r'
    · simp [heq, Client.touch]
    · simp [heq]

/-- A record is put in the place of another state of its client, which is as
clear as before. -/
theorem lives_set {c' : Client} (hr : s.record? r = some c) (hid : c'.clientId = c.clientId)
    (hcleared : c'.cleared = c.cleared) (notices : List Notice) :
    s.Lives { s with records := s.records.set r c', notices } := by
  refine lives_of_marks ?_ rfl rfl
  have hmark : s.marks[r]? = some (c.clientId, c.cleared) := by
    rw [marks_getElem?, hr]
    rfl
  obtain ⟨hlt, hget⟩ := List.getElem?_eq_some_iff.mp hmark
  show (s.records.set r c').map _ = s.marks
  rw [List.map_set, hid, hcleared]
  exact hget ▸ List.set_getElem_self hlt

/-! ### Departures -/

/-- The service with other clients stored. -/
def withClients (s : Service) (clients : Cache String ClientRef) : Service := { s with clients }

theorem cleared_clear (c : Client) : c.clear.1.cleared = true := by
  unfold Client.clear
  split
  · assumption
  · rfl

theorem clients_discard (s : Service) (r : ClientRef) : (s.discard r).clients = s.clients := by
  unfold discard
  split <;> rfl

theorem clients_discardAll (s : Service) (rs : List ClientRef) :
    (s.discardAll rs).clients = s.clients := by
  induction rs generalizing s with
  | nil => rfl
  | cons r rest ih => exact (ih (s.discard r)).trans (clients_discard s r)

/-- A discard does the same whatever is stored. -/
theorem discard_withClients (s : Service) (clients : Cache String ClientRef) (r : ClientRef) :
    (s.withClients clients).discard r = (s.discard r).withClients clients := by
  unfold discard withClients record?
  cases s.records[r]? <;> rfl

/-- A client that is discarded is marked as cleared, and its departure is
announced. -/
theorem discard_of_marks (hr : s.marks[r]? = some (k, false)) :
    (s.discard r).marks = s.marks.set r (k, true) ∧
      ∃ a, (s.discard r).outbox = s.outbox ++ [a] ∧ a.clientId = k ∧ a.issued = false := by
  rw [marks_getElem?] at hr
  obtain ⟨c, hc, hmark⟩ := Option.map_eq_some_iff.mp hr
  have hid : c.clear.1.clientId = k := c.same_clear.clientId_eq.trans (Prod.ext_iff.mp hmark).1
  unfold discard
  rw [hc]
  refine ⟨?_, _, rfl, hid, rfl⟩
  show (s.records.set r c.clear.1).map _ = _
  rw [List.map_set, hid, cleared_clear]
  rfl

/-- One client leaves the cache and is discarded. -/
theorem lives_discard (hdrops : Cache.Drops s.clients clients [(k, r)]) :
    s.Lives ((s.withClients clients).discard r) := by
  intro log htidy
  have hk : s.clients.value? k = some r := hdrops.held (k, r) List.mem_cons_self
  have hvalue : ∀ k', clients.value? k' = if k' = k then none else s.clients.value? k' :=
    fun k' => by simpa using hdrops.value?_eq k'
  have hmark := (htidy.stored_iff k r).mp hk
  obtain ⟨hlt, hget⟩ := List.getElem?_eq_some_iff.mp hmark
  obtain ⟨hmarks, a, houtbox, hid, hissued⟩ := discard_of_marks hmark
  refine ⟨[a], by rw [discard_withClients]; exact houtbox, ?_⟩
  rw [discard_withClients]
  refine ⟨hdrops.ascending, fun k' r' => ?_, fun k' => ?_, fun k' => ?_, fun k' => ?_⟩
  · -- The client that leaves is marked, and nobody else had its id.
    show clients.value? k' = some r' ↔ (s.discard r).marks[r']? = _
    rw [hmarks, List.getElem?_set, hvalue]
    by_cases hr : r = r'
    · subst hr
      rw [if_pos rfl, if_pos hlt]
      by_cases hkk : k' = k
      · simp [hkk]
      · rw [if_neg hkk, htidy.stored_iff, hmark]
        simp [Ne.symm hkk]
    · rw [if_neg hr, ← htidy.stored_iff]
      by_cases hkk : k' = k
      · subst hkk
        simp [hk, hr]
      · rw [if_neg hkk]
  · -- It was there, so the last news of its id was a coming.
    show Turns _ (clients.value? k').isSome
    rw [turnsOf_concat, hid, hissued, hvalue]
    have hturns := htidy.turns k'
    by_cases hkk : k = k'
    · subst hkk
      rw [hk] at hturns
      simpa using hturns.went
    · simpa [hkk, Ne.symm hkk] using hturns
  · show _ = ((s.discard r).marks.map Prod.fst).count k'
    have hids : (s.marks.map Prod.fst).set r k = s.marks.map Prod.fst := by
      have hlt' : r < (s.marks.map Prod.fst).length := by rwa [List.length_map]
      have hself := List.set_getElem_self hlt'
      rwa [List.getElem_map, hget] at hself
    rw [hmarks, turnsOf_concat, hissued, List.map_set, List.count_append, htidy.came, hids]
    split <;> simp
  · show _ = (s.discard r).marks.count (k', true)
    rw [hmarks, turnsOf_concat, hissued, hid, List.count_append, htidy.went,
      List.count_set hlt, hget]
    by_cases hkk : k = k' <;> simp [hkk]

/-- All clients that leave the cache are discarded. -/
theorem lives_discardAll {out : List (String × ClientRef)}
    (hdrops : Cache.Drops s.clients clients out) :
    s.Lives ((s.withClients clients).discardAll (out.map Prod.snd)) := by
  refine lives_of_ascending fun hasc => ?_
  induction out generalizing s with
  | nil => exact lives_of_marks_eq rfl hdrops rfl
  | cons p rest ih =>
    obtain ⟨k, r⟩ := p
    obtain ⟨hfirst, hrest⟩ := List.nodup_cons.mp hdrops.nodup
    -- This one leaves first, and the others are discarded after it.
    have herase := Cache.drops_erase hasc k
    rw [hdrops.held (k, r) List.mem_cons_self] at herase
    let s₁ := (s.withClients { s.clients with table := s.clients.table.erase k }).discard r
    have hclients : s₁.clients = { s.clients with table := s.clients.table.erase k } :=
      clients_discard _ r
    have hlater : Cache.Drops s₁.clients clients rest := by
      rw [hclients]
      refine ⟨hrest, fun p hp => ?_, fun k' => ?_, hdrops.ascending⟩
      · rw [herase.value?_eq, if_neg ?_]
        · exact hdrops.held p (List.mem_cons_of_mem _ hp)
        · intro hmem
          have heq : p.1 = k := by simpa using hmem
          exact hfirst (heq ▸ List.mem_map.mpr ⟨p, hp, rfl⟩)
      · rw [hdrops.value?_eq, herase.value?_eq]
        by_cases hkk : k' = k <;> by_cases hmem : k' ∈ rest.map Prod.fst <;> simp [hkk, hmem]
    have hlater_ascending : s₁.clients.table.Ascending := by
      rw [hclients]
      exact herase.ascending
    have hall := (lives_discard herase).trans (ih hlater hlater_ascending)
    have hswap : s₁.withClients clients = (s.withClients clients).discard r := by
      rw [discard_withClients]
      show ((s.withClients _).discard r).withClients clients = _
      rw [discard_withClients]
      rfl
    rw [hswap] at hall
    exact hall

/-! ### Arrivals -/

/-- The service with one more record, and other clients stored. -/
def withRecord (s : Service) (c : Client) (clients : Cache String ClientRef) : Service :=
  { s with records := s.records ++ [c], clients }

/-- A discard of earlier clients does not see the new record. -/
theorem discardAll_withRecord {rs : List ClientRef} (hrs : ∀ r ∈ rs, r < s.records.length) :
    (s.withRecord c clients).discardAll rs = (s.discardAll rs).withRecord c clients := by
  induction rs generalizing s with
  | nil => rfl
  | cons r rest ih =>
    obtain ⟨hlt, hrest⟩ := List.forall_mem_cons.mp hrs
    have hdiscard : (s.withRecord c clients).discard r = (s.discard r).withRecord c clients := by
      unfold discard withRecord record?
      simp only [List.getElem?_append_left hlt]
      cases s.records[r]? with
      | none => rfl
      | some c' =>
        simp only [List.set_append_left _ _ hlt]
        rfl
    show ((s.withRecord c clients).discard r).discardAll rest = _
    rw [hdiscard, ih fun r' hr' => (keeps_discard s r).length_eq.symm ▸ hrest r' hr']
    rfl

/-- A client is made, stored under an id that is free, and announced. -/
theorem lives_store (hcleared : c.cleared = false) (hfree : s.clients.value? c.clientId = none)
    (hvalue : ∀ k, clients.value? k
      = if k = c.clientId then some s.records.length else s.clients.value? k)
    (hasc : clients.table.Ascending) :
    s.Lives ((s.withRecord c clients).announce true c) := by
  intro log htidy
  have hmarks : ((s.withRecord c clients).announce true c).marks
      = s.marks ++ [(c.clientId, false)] := by
    show (s.records ++ [c]).map _ = _
    rw [List.map_append, ← hcleared]
    rfl
  refine ⟨[_], rfl, hasc, fun k r => ?_, fun k => ?_, fun k => ?_, fun k => ?_⟩
  · show clients.value? k = some r ↔ _
    have hlength : s.records.length = s.marks.length := (List.length_map _).symm
    rw [hmarks, hvalue, hlength, List.getElem?_append]
    by_cases hk : k = c.clientId
    · subst hk
      rw [if_pos rfl]
      split
      · rename_i hlt
        rw [← htidy.stored_iff, hfree]
        simp [Nat.ne_of_gt hlt]
      · rename_i hle
        by_cases hr : s.marks.length = r
        · simp [hr]
        · simp [hr, Nat.sub_ne_zero_of_lt (Nat.lt_of_le_of_ne (Nat.le_of_not_lt hle) hr)]
    · rw [if_neg hk, htidy.stored_iff]
      split
      · rfl
      · rename_i hle
        rw [List.getElem?_eq_none (Nat.le_of_not_lt hle)]
        refine ⟨fun hnone => (nomatch hnone), fun hsome => absurd ?_ hk⟩
        exact (Prod.ext_iff.mp (List.mem_singleton.mp (List.mem_of_getElem? hsome))).1
  · show Turns _ (clients.value? k).isSome
    rw [turnsOf_concat, hvalue]
    have hturns := htidy.turns k
    by_cases hk : c.clientId = k
    · subst hk
      rw [hfree] at hturns
      simpa using hturns.came
    · simpa [hk, Ne.symm hk] using hturns
  · rw [hmarks, turnsOf_concat, List.map_append, List.count_append, List.count_append, htidy.came]
    by_cases hk : c.clientId = k <;> simp [hk]
  · rw [hmarks, turnsOf_concat, List.count_append, List.count_append, htidy.went]
    by_cases hk : c.clientId = k <;> simp [hk]

/-- A client is made. Clients that are found expired meanwhile, and the one in
whose place it is stored, leave. -/
theorem lives_issue {out : List (String × ClientRef)}
    (hdrops : Cache.Drops s.clients clients out) (clientId : String) (session : Option String)
    (user : User) (rights : Rights) :
    s.Lives ((s.withClients clients).issue clientId session user rights (out.map Prod.snd)).2 := by
  let erased : Cache String ClientRef := { clients with table := clients.table.erase clientId }
  let gone := out ++ (clients.value? clientId).toList.map fun r => (clientId, r)
  have herase := Cache.drops_erase hdrops.ascending clientId
  have hgone : Cache.Drops s.clients erased gone := hdrops.trans herase
  have hvalue : ∀ k, erased.value? k = if k = clientId then none else clients.value? k :=
    Cache.value?_erase clients clientId
  -- The new client is stored after those before it have left.
  let c := Client.logon clientId session user rights s.now
  let inserted := (clients.insert clientId s.records.length s.clock).2
  let s₁ := (s.withClients erased).discardAll (gone.map Prod.snd)
  have hclients : s₁.clients = erased := clients_discardAll _ _
  have hlength : s₁.records.length = s.records.length := (keeps_discardAll _ _).length_eq
  have hstore : s₁.Lives ((s₁.withRecord c inserted).announce true c) := by
    refine lives_store rfl ?_ (fun k => ?_) (Table.ascending_insert hdrops.ascending _ _)
    · rw [hclients, hvalue]
      exact if_pos rfl
    · show _ = if k = clientId then _ else _
      rw [Cache.value?_insert, hclients, hvalue, hlength]
      by_cases hk : k = clientId <;> simp [hk]
  intro log htidy
  obtain ⟨more, houtbox, htidy'⟩ := (lives_discardAll hgone).trans hstore log htidy
  have hrs : ∀ r ∈ gone.map Prod.snd, r < (s.withClients erased).records.length := by
    intro r hr
    obtain ⟨p, hp, rfl⟩ := List.mem_map.mp hr
    have hmark := (htidy.stored_iff _ _).mp (hgone.held p hp)
    have hlt := (List.getElem?_eq_some_iff.mp hmark).1
    rwa [marks, List.length_map] at hlt
  have hissue : ((s.withClients clients).issue clientId session user rights
      (out.map Prod.snd)).2 = (s₁.withRecord c inserted).announce true c := by
    rw [← discardAll_withRecord hrs, List.map_append, List.map_map]
    show (Service.discardAll _ (out.map Prod.snd ++ (clients.value? clientId).toList)).announce
      true c = _
    rw [show (Prod.snd ∘ fun r => (clientId, r)) = (id : ClientRef → ClientRef) from rfl,
      List.map_id]
    rfl
  exact ⟨more, hissue ▸ houtbox, hissue ▸ htidy'⟩

/-- A logon takes no client out of the cache but an expired one, which it
hands on. -/
theorem drops_findMatch (hasc : s.clients.table.Ascending) (m : Matching) (clientId : String)
    (session : Option String) (user : User) :
    ∃ clients out,
      (s.findMatch m clientId session user).2 = (out.map Prod.snd, s.withClients clients)
      ∧ Cache.Drops s.clients clients out
      ∧ ((s.findMatch m clientId session user).1.isSome → out = []) := by
  cases m with
  | userName => exact ⟨_, [], rfl, Cache.drops_find hasc _ _, fun _ => rfl⟩
  | session => exact ⟨_, [], rfl, Cache.drops_find hasc _ _, fun _ => rfl⟩
  | clientId =>
    have hget := Cache.drops_get hasc clientId s.clock
    simp only [findMatch]
    split
    · rename_i r clients heq
      rw [heq] at hget
      exact ⟨clients, [], rfl, hget, fun _ => rfl⟩
    · rename_i r clients heq
      rw [heq] at hget
      exact ⟨clients, [(clientId, r)], rfl, hget, fun hsome => absurd hsome Bool.false_ne_true⟩
    · rename_i clients heq
      rw [heq] at hget
      exact ⟨clients, [], rfl, hget, fun _ => rfl⟩

theorem lives_authenticate (s : Service) (m : Matching) (clientId : String)
    (session : Option String) (user : User) :
    s.Lives (s.authenticate m clientId session user).2 := by
  refine lives_of_ascending fun hasc => ?_
  obtain ⟨clients, out, hrest, hdrops, hfound⟩ := drops_findMatch hasc m clientId session user
  unfold authenticate
  split
  · exact .refl s
  · rename_i rights _
    split
    · -- A client is found: nobody left, and it is only touched.
      rename_i r stale s₁ heq
      rw [heq] at hrest hfound
      obtain ⟨rfl, rfl⟩ := Prod.ext_iff.mp hrest
      rw [hfound rfl] at hdrops
      have hlook : s.Lives (s.withClients clients) := lives_of_marks_eq rfl hdrops rfl
      exact hlook.trans (lives_touch _ r)
    · -- A new one is made, and who was found expired leaves.
      rename_i stale s₁ heq
      rw [heq] at hrest
      obtain ⟨rfl, rfl⟩ := Prod.ext_iff.mp hrest
      exact lives_issue hdrops clientId session user rights

theorem lives_arrive (s : Service) (clientId : String) (a : Arrival) :
    s.Lives (s.arrive clientId a).2 := by
  rw [arrive_eq]
  cases s.identify a with
  | error e => exact .refl s
  | ok identity => exact lives_authenticate s identity.1 clientId identity.2.1 identity.2.2

/-! ### The other operations -/

theorem lives_getClient (s : Service) (clientId : String) :
    s.Lives (s.getClient clientId).2 := by
  refine lives_of_ascending fun hasc => ?_
  have hget := Cache.drops_get hasc clientId s.clock
  unfold getClient
  split
  · rename_i r clients heq
    rw [heq] at hget
    have hlook : s.Lives (s.withClients clients) := lives_of_marks_eq rfl hget rfl
    exact hlook.trans (lives_touch _ r)
  · -- It has expired, so the look-up takes it out.
    rename_i r clients heq
    rw [heq] at hget
    exact lives_discard hget
  · rename_i clients heq
    rw [heq] at hget
    exact lives_of_marks_eq rfl hget rfl

theorem lives_removeClient (s : Service) (clientId : String) :
    s.Lives (s.removeClient clientId).2 := by
  refine lives_of_ascending fun hasc => ?_
  have herase := Cache.drops_erase hasc clientId
  have hremove : s.clients.remove clientId = (s.clients.value? clientId, _) := rfl
  unfold removeClient
  split
  · rename_i clients heq
    rw [hremove] at heq
    obtain ⟨hnone, rfl⟩ := Prod.ext_iff.mp heq
    rw [show s.clients.value? clientId = none from hnone] at herase
    exact lives_of_marks_eq rfl herase rfl
  · rename_i r clients heq
    rw [hremove] at heq
    obtain ⟨hsome, rfl⟩ := Prod.ext_iff.mp heq
    rw [show s.clients.value? clientId = some r from hsome] at herase
    exact lives_discard herase

/-- All clients leave whose entries pass a test. -/
theorem lives_takeEntries (hasc : s.clients.table.Ascending)
    (p : Cache.Entry ClientRef → Bool) :
    s.Lives
      ((s.withClients (s.clients.takeEntries p).2).discardAll (s.clients.takeEntries p).1) := by
  have hleave := lives_discardAll (Cache.drops_takeEntries hasc p)
  have hvalues : (s.clients.takeEntries p).1
      = ((s.clients.table.entries.filter fun e => p e.2).map fun e =>
          (e.1, e.2.value)).map Prod.snd := by
    unfold Cache.takeEntries Table.values
    rw [List.filter_map, List.map_map, List.map_map]
    rfl
  rw [hvalues]
  exact hleave

theorem lives_purge (s : Service) : s.Lives s.purge.2 := by
  refine lives_of_ascending fun hasc => ?_
  have hcsrf : s.Lives { s with csrf := (s.csrf.purge s.clock).2 } := lives_of_marks rfl rfl rfl
  exact hcsrf.trans (@lives_takeEntries { s with csrf := (s.csrf.purge s.clock).2 } hasc _)

theorem lives_registerLogout (s : Service) (session : String) :
    s.Lives (s.registerLogout session).2 := by
  refine lives_of_ascending fun hasc => ?_
  have hsession : s.Lives { s with sessions := s.sessions.erase session } :=
    lives_of_marks rfl rfl rfl
  exact hsession.trans (@lives_takeEntries { s with sessions := s.sessions.erase session } hasc _)

theorem lives_clientOfToken (s : Service) (address token : String) :
    s.Lives (s.clientOfToken address token).2 := by
  unfold clientOfToken
  split
  · exact .refl s
  · rename_i claims _
    have hget := lives_getClient s claims.clientId
    split
    · rename_i heq
      rwa [heq] at hget
    · rename_i heq
      rw [heq] at hget
      split
      · exact hget
      · split <;> exact hget

theorem lives_checkCsrf (s : Service) (token session : String) (consume : Bool) :
    s.Lives (s.checkCsrf token session consume).2 := by
  unfold checkCsrf
  split
  · split <;> exact lives_of_marks rfl rfl rfl
  · exact lives_of_marks rfl rfl rfl

theorem lives_setAttribute (s : Service) (r : ClientRef) (name : String) (a : Attribute) :
    s.Lives (s.setAttribute r name a).2 := by
  have hset : ∀ c : Client, (c.setAttribute name a).2.1.clientId = c.clientId ∧
      (c.setAttribute name a).2.1.cleared = c.cleared := fun c => by
    unfold Client.setAttribute
    split <;> exact ⟨rfl, rfl⟩
  unfold setAttribute
  split
  · exact .refl s
  · rename_i c hr
    exact lives_set hr (hset c).1 (hset c).2 _

theorem lives_removeAttribute (s : Service) (r : ClientRef) (name : String) :
    s.Lives (s.removeAttribute r name).2 := by
  have hremove : ∀ c : Client, (c.removeAttribute name).2.1.clientId = c.clientId ∧
      (c.removeAttribute name).2.1.cleared = c.cleared := fun c => by
    unfold Client.removeAttribute
    split <;> exact ⟨rfl, rfl⟩
  unfold removeAttribute
  split
  · exact .refl s
  · rename_i c hr
    exact lives_set hr (hremove c).1 (hremove c).2 _

theorem lives_receive (s : Service) (m : Bus.Message Node.Listener) : s.Lives (s.receive m) := by
  unfold receive
  split
  · split
    · exact .refl s
    · exact lives_of_marks rfl rfl rfl
  · split
    · split
      · exact .refl s
      · exact lives_registerLogout s _
    · split
      · exact lives_purge s
      · exact .refl s

/-- Every event keeps a service tidy, unless it clears a client that is
stored or takes news away. -/
theorem lives_step (s : Service) {e : Event} (hclear : ∀ r, e ≠ .clearAttributes r)
    (htake : e ≠ .takeNews) : s.Lives (s.step e) := by
  cases e with
  | arrive clientId a => exact lives_arrive s clientId a
  | look clientId => exact lives_getClient s clientId
  | remove clientId => exact lives_removeClient s clientId
  | purge => exact lives_purge s
  | present address token => exact lives_clientOfToken s address token
  | checkCsrf token session consume => exact lives_checkCsrf s token session consume
  | logout session => exact lives_registerLogout s session
  | message m => exact lives_receive s m
  | setAttribute r name a => exact lives_setAttribute s r name a
  | removeAttribute r name => exact lives_removeAttribute s r name
  | clearAttributes r => exact absurd rfl (hclear r)
  | takeNews => exact absurd rfl htake
  | issueCsrf session random | logon session logon | setClock clock | setWallClock time
  | setDirectory directory => exact lives_of_marks rfl rfl rfl

end Service

end Backplane.Access
