import Backplane.Proofs.Lock.Alike
import Mathlib.Data.List.Nodup

/-!
# `Backplane.Proofs.Lock.Collection`: collections are exact and unseen

A collection drops the locks that have no owner, whose permits are all
available, and that no call under way uses: none waits for it, has a permit
of it in hand, or may have to take a grant of it back. What is dropped is
made anew when it is looked at the next time, and nothing is lost by that.
The main statements:

* `mem_removed`, `get?_survivors`, `fst_collectGarbage`: what a collection
  drops, what it leaves, and what it counts.
* `alike_step`: moments that are alike answer an event alike, and are alike
  after it.
* `collect_exact_unseen`: both, for every moment of every history; and
  whatever happens later has the same answers with and without the
  collection.
-/

set_option autoImplicit false

namespace Backplane.Lock

namespace Service

/-- A call under way waits for a lock, has a permit of it in hand, or has
noted a grant of it that it may have to take back. -/
def Uses (s : Service) (name : CallId) (t : String) (x : Int) : Prop :=
  ∃ c, s.calls.get? name = some c ∧ c.resourceType = t ∧ (c.ids.head? = some x ∨ x ∈ c.taken)

/-- There is a lock without an owner, whose permits are all available, and
which no call uses. -/
def Garbage (s : Service) (t : String) (x : Int) : Prop :=
  ∃ b i, s.blocks.get? t = some b ∧ b.items.get? x = some i ∧ i.owners.members = [] ∧
    i.available = b.maxLocks ∧ ∀ name, ¬ s.Uses name t x

/-- The locks of a type that a collection drops. -/
def dropped (s : Service) (b : Block) : List (Int × Item) :=
  b.items.entries.filter fun e => !(s.isNeeded b.name e.1 || !e.2.isFree)

/-- The resources whose locks a collection drops. -/
def removed (s : Service) : List (String × Int) :=
  s.blocks.entries.flatMap fun e => (s.dropped e.2).map fun f => (e.1, f.1)

variable {s : Service} {t : String} {x : Int} {b : Block}

theorem isNeeded_iff (h : s.Sound) (t : String) (x : Int) :
    s.isNeeded t x = true ↔ ∃ name, s.Uses name t x := by
  have hneeds : ∀ c : Call, c.needs t x = true ↔
      c.resourceType = t ∧ (c.ids.head? = some x ∨ x ∈ c.taken) := by
    intro c
    unfold Call.needs
    rw [Bool.and_eq_true, Bool.or_eq_true, beq_iff_eq, beq_iff_eq, List.contains_iff_mem]
  unfold isNeeded
  rw [List.any_eq_true]
  constructor
  · rintro ⟨c, hc, hneed⟩
    obtain ⟨⟨name, c'⟩, hmem, rfl⟩ := List.mem_map.mp hc
    exact ⟨name, c', Table.get?_of_mem_entries h.calls_ascending hmem, (hneeds c').mp hneed⟩
  · rintro ⟨name, c, hc, huses⟩
    exact ⟨c, Table.mem_values_of_get? hc, (hneeds c).mpr huses⟩

/-- Whether a lock is dropped. -/
theorem drops_iff (h : s.Sound) (hb : s.blocks.get? t = some b) {i : Item}
    (hi : b.items.get? x = some i) :
    (s.isNeeded b.name x || !i.isFree) = false ↔ s.Garbage t x := by
  have hcapacity : i.capacity = b.maxLocks := by
    rw [← Block.item_of_get? hi]
    exact ((h.block hb).item x).capacity_eq
  rw [h.name_eq hb, Bool.or_eq_false_iff, Bool.eq_false_iff, ne_eq, isNeeded_iff h,
    Bool.not_eq_false', Item.isFree_iff, hcapacity]
  constructor
  · rintro ⟨hunused, havailable, howners⟩
    exact ⟨b, i, hb, hi, howners, havailable, fun name huses => hunused ⟨name, huses⟩⟩
  · rintro ⟨b', i', hb', hi', howners, havailable, hunused⟩
    rw [hb] at hb'
    cases hb'
    rw [hi] at hi'
    cases hi'
    refine ⟨?_, havailable, howners⟩
    rintro ⟨name, huses⟩
    exact hunused name huses

/-- A collection drops garbage and nothing else. -/
theorem mem_removed (h : s.Sound) : (t, x) ∈ s.removed ↔ s.Garbage t x := by
  unfold removed dropped
  simp only [List.mem_flatMap, List.mem_map, List.mem_filter, Prod.mk.injEq, Bool.not_eq_true']
  constructor
  · rintro ⟨⟨t', b⟩, hb, ⟨x', i⟩, ⟨hi, hdrop⟩, rfl, rfl⟩
    have hb := Table.get?_of_mem_entries h.blocks_ascending hb
    have hi := Table.get?_of_mem_entries (h.block hb).ascending hi
    exact (drops_iff h hb hi).mp hdrop
  · intro hg
    obtain ⟨b, i, hb, hi, _⟩ := id hg
    exact ⟨(t, b), Table.mem_entries_of_get? hb, (x, i),
      ⟨Table.mem_entries_of_get? hi, (drops_iff h hb hi).mpr hg⟩, rfl, rfl⟩

/-- No lock is dropped twice. -/
theorem nodup_removed (h : s.Sound) : s.removed.Nodup := by
  have hkeys : ∀ {κ ν : Type} [LinearOrder κ] {t : Table κ ν}, t.Ascending →
      t.entries.Pairwise fun e f => e.1 ≠ f.1 := fun ha => ha.imp fun hlt => ne_of_lt hlt
  refine List.nodup_flatMap.mpr ⟨fun e he => ?_, (hkeys h.blocks_ascending).imp fun hne => ?_⟩
  · have hb := Table.get?_of_mem_entries h.blocks_ascending he
    have hitems := hkeys (h.block hb).ascending
    refine List.pairwise_map.mpr ((hitems.sublist List.filter_sublist).imp fun hne heq => hne ?_)
    exact congrArg Prod.snd heq
  · -- What is dropped of two types differs in the type.
    intro r hr hr'
    obtain ⟨_, _, rfl⟩ := List.mem_map.mp hr
    obtain ⟨_, _, heq⟩ := List.mem_map.mp hr'
    exact hne (congrArg Prod.fst heq).symm

/-- What a look-up finds after a collection. -/
theorem get?_survivors (h : s.Sound) (hb : s.blocks.get? t = some b) (x : Int) :
    (s.survivors b).items.get? x = if (t, x) ∈ s.removed then none else b.items.get? x := by
  rw [items_get?_survivors h hb]
  cases hi : b.items.get? x with
  | none => rw [Option.filter_none, ite_self]
  | some i =>
    rw [Option.filter_some]
    have hdrops : (s.isNeeded b.name x || !i.isFree) = false ↔ (t, x) ∈ s.removed :=
      (drops_iff h hb hi).trans (mem_removed h).symm
    cases hkeep : s.isNeeded b.name x || !i.isFree with
    | true =>
      rw [hkeep] at hdrops
      rw [if_pos rfl, if_neg fun hr => nomatch hdrops.mpr hr]
    | false => rw [if_neg (by decide), if_pos (hdrops.mp hkeep)]

/-- A collection counts what it drops. -/
theorem fst_collectGarbage (s : Service) : s.collectGarbage.1 = s.removed.length := by
  have hblock : ∀ b : Block, b.size = (s.survivors b).size + (s.dropped b).length := by
    intro b
    show b.items.entries.length = (b.items.entries.filter fun e => _).length + _
    exact List.length_eq_length_filter_add _
  -- The induction is on the types.
  have hall : ∀ l : List (String × Block),
      (l.map Prod.snd).foldr (fun b n => b.size + n) 0
        = ((l.map fun e => (e.1, s.survivors e.2)).map Prod.snd).foldr (fun b n => b.size + n) 0
          + (l.flatMap fun e => (s.dropped e.2).map fun f => (e.1, f.1)).length := by
    intro l
    induction l with
    | nil => rfl
    | cons e rest ih =>
      have hfirst := hblock e.2
      simp only [List.map_cons, List.foldr_cons, List.flatMap_cons, List.length_append,
        List.length_map] at ih ⊢
      omega
  have hcount := hall s.blocks.entries
  show s.resourceCount - _ = s.removed.length
  unfold removed
  exact Nat.sub_eq_of_eq_add (by rw [Nat.add_comm]; exact hcount)

end Service

/-! ### What is seen -/

/-- What the one is told who makes an event. -/
inductive Result where
  | declared (outcome : Except Error Unit)
  /-- Where the call stands that was let run, if it was not refused. -/
  | ran (progress : Except Error Progress)
  | unlocked (outcome : Except Error Unit)
  /-- Time has passed, or locks have been collected. -/
  | silent
deriving Repr, DecidableEq

/-- An event's answer: when it comes, what it says, and which calls have
been handed a permit. -/
structure Answer where
  time : Nat
  result : Result
  woken : List CallId
deriving Repr, DecidableEq

namespace Moment

variable {m m' : Moment} {e : Event}

/-- What an event says. The count of a collection is left out. -/
def result (m : Moment) : Event → Result
  | .declare d => .declared ((m.service.createResource d).map fun _ => ())
  | .request r => .ran (m.service.begin m.nextCall r m.now).1
  | .wake name => .ran (.ok (m.service.resume name m.now).1)
  | .unlock t id p => .unlocked (m.service.unlock t id p).1
  | .unlockAll t ids p => .unlocked (m.service.unlockAll t ids p).1
  | .collect => .silent
  | .elapse _ => .silent

/-- The answer to an event. -/
def answer (m : Moment) (e : Event) : Answer := ⟨m.now, m.result e, m.woken e⟩

/-- The answers to events that happen one after the other. -/
def answers (m : Moment) : List Event → List Answer
  | [] => []
  | e :: rest => m.answer e :: (m.step e).answers rest

/-- Whoever looks at the service at two moments sees the same: the same
time, types, calls under way and owners, and calls that have been handed a
permit; and the same of each lock, except that a free one may be missing or
differ in its last owner. -/
structure LooksLike (m m' : Moment) : Prop where
  now_eq : m.now = m'.now
  types_eq : m.service.resourceTypes = m'.service.resourceTypes
  calls_eq : m.service.calls = m'.service.calls
  owners_eq : ∀ t x, m.service.owners t x = m'.service.owners t x
  isLocked_eq : ∀ t x, m.service.isLocked t x = m'.service.isLocked t x
  hasPermit_iff : ∀ d, m.service.HasPermit d ↔ m'.service.HasPermit d
  info : ∀ t x, m.service.SameInfo m'.service t x

/-- Two moments are alike. -/
structure Alike (m m' : Moment) : Prop where
  now_eq : m.now = m'.now
  nextCall_eq : m.nextCall = m'.nextCall
  service : m.service.Alike m'.service

theorem Alike.looksLike (h : m.Alike m') : m.LooksLike m' where
  now_eq := h.now_eq
  types_eq := h.service.keys_eq
  calls_eq := h.service.calls_eq
  owners_eq := h.service.owners_eq
  isLocked_eq := h.service.isLocked_eq
  hasPermit_iff := h.service.hasPermit_iff
  info := h.service.info

/-- A collection leaves the service as it looks. -/
theorem alike_collect (h : m.Sound) (hf : m.Funded) : m.Alike (m.step .collect) :=
  ⟨rfl, rfl, Service.alike_collectGarbage h.service hf⟩

theorem answer_eq (hnow : m.now = m'.now) (hresult : m.result e = m'.result e)
    (hwoken : m.woken e = m'.woken e) : m.answer e = m'.answer e := by
  unfold answer
  rw [hnow, hresult, hwoken]

/-- Moments that are alike answer an event alike, and are alike after it. -/
theorem alike_step (h : m.Sound) (hf : m.Funded) (h' : m'.Sound) (hf' : m'.Funded)
    (ha : m.Alike m') (e : Event) :
    m.answer e = m'.answer e ∧ (m.step e).Alike (m'.step e) := by
  obtain ⟨now, nextCall, s⟩ := m
  obtain ⟨now', nextCall', s'⟩ := m'
  obtain ⟨rfl, rfl, hs⟩ := ha
  change s.Alike s' at hs
  -- It remains to compare what the operation of the event does on both sides.
  cases e with
  | declare d =>
    have hboth : (s.createResource d).map (fun _ => ()) = (s'.createResource d).map (fun _ => ()) ∧
        ((s.createResource d).toOption.getD s).Alike ((s'.createResource d).toOption.getD s') := by
      rcases hs.createResource d with ⟨e, he, he'⟩ | ⟨r, r', hr, hr', hrr⟩
      · rw [he, he']
        exact ⟨rfl, hs⟩
      · rw [hr, hr']
        exact ⟨rfl, hrr⟩
    exact ⟨answer_eq rfl (congrArg Result.declared hboth.1) rfl, rfl, rfl, hboth.2⟩
  | request r =>
    have hagree := hs.begin nextCall r now
    exact ⟨answer_eq rfl (congrArg Result.ran hagree.result) hagree.woken, rfl, rfl, hagree.state⟩
  | wake name =>
    have hagree := hs.resume name now
    exact ⟨answer_eq rfl (congrArg (fun p => Result.ran (.ok p)) hagree.result) hagree.woken,
      rfl, rfl, hagree.state⟩
  | unlock t id p =>
    have hagree := hs.unlock t id p
    exact ⟨answer_eq rfl (congrArg Result.unlocked hagree.result) hagree.woken, rfl, rfl,
      hagree.state⟩
  | unlockAll t ids p =>
    have hagree := hs.unlockAll t ids p
    exact ⟨answer_eq rfl (congrArg Result.unlocked hagree.result) hagree.woken, rfl, rfl,
      hagree.state⟩
  | collect =>
    have hleft := Service.alike_collectGarbage h.service hf
    have hright := Service.alike_collectGarbage h'.service hf'
    exact ⟨rfl, rfl, rfl, hleft.symm.trans (hs.trans hright)⟩
  | elapse ms => exact ⟨rfl, rfl, rfl, hs⟩

/-- So they answer alike whatever happens. -/
theorem alike_run (fs : List Event) (h : m.Sound) (hf : m.Funded) (h' : m'.Sound)
    (hf' : m'.Funded) (ha : m.Alike m') :
    m.answers fs = m'.answers fs ∧ (fs.foldl step m).Alike (fs.foldl step m') := by
  induction fs generalizing m m' with
  | nil => exact ⟨rfl, ha⟩
  | cons e rest ih =>
    obtain ⟨hanswer, hnext⟩ := alike_step h hf h' hf' ha e
    obtain ⟨hrest, hlast⟩ := ih (sound_step h e) (funded_step h hf e) (sound_step h' e)
      (funded_step h' hf' e) hnext
    refine ⟨?_, hlast⟩
    show m.answer e :: _ = m'.answer e :: _
    rw [hanswer, hrest]

/-- The lock of a resource, if there is one. -/
def lock? (m : Moment) (t : String) (x : Int) : Option Item :=
  (m.service.blocks.get? t).bind fun b => b.items.get? x

/-- A collection at any moment of any history drops exactly the garbage and
gives back its number; what it drops has nobody in its queue. Whatever
happens afterwards has the same answers as without the collection, at the
same time, and leaves a service that looks the same. -/
theorem collect_exact_unseen (es : List Event) (n : Nat) :
    (∃ removed : List (String × Int), removed.Nodup ∧
      (after es n).service.collectGarbage.1 = removed.length ∧
      ∀ t x, ((t, x) ∈ removed ↔ (after es n).service.Garbage t x) ∧
        (((after es n).step .collect).lock? t x
          = if (t, x) ∈ removed then none else (after es n).lock? t x) ∧
        ∀ i, (t, x) ∈ removed → (after es n).lock? t x = some i →
          i.waiters = [] ∧ i.handed = []) ∧
    ∀ fs : List Event, ((after es n).step .collect).answers fs = (after es n).answers fs ∧
      (fs.foldl step ((after es n).step .collect)).LooksLike (fs.foldl step (after es n)) := by
  have h := sound_after es n
  have hf := funded_after es n
  refine ⟨⟨(after es n).service.removed, Service.nodup_removed h.service,
    Service.fst_collectGarbage _, fun t x => ⟨Service.mem_removed h.service, ?_, ?_⟩⟩, fun fs => ?_⟩
  · have hget : ((after es n).step .collect).service.blocks.get? t = _ :=
      Service.blocks_get?_collectGarbage (after es n).service t
    unfold lock?
    rw [hget]
    cases hb : (after es n).service.blocks.get? t with
    | none => exact (ite_self _).symm
    | some b => exact Service.get?_survivors h.service hb x
  · intro i hr hi
    obtain ⟨b, i', hb, hi', _, _, hunused⟩ := (Service.mem_removed h.service).mp hr
    have hneeded : (after es n).service.isNeeded t x = false := by
      rw [Bool.eq_false_iff, ne_eq, Service.isNeeded_iff h.service]
      exact fun ⟨name, huses⟩ => hunused name huses
    have hqueue := Service.queue_of_not_isNeeded h.service hb hneeded
    unfold lock? at hi
    rw [hb] at hi
    rw [Block.item_of_get? hi] at hqueue
    exact List.append_eq_nil_iff.mp hqueue
  · have hcollect := alike_collect h hf
    obtain ⟨hanswers, hlast⟩ := alike_run fs h hf (sound_step h .collect)
      (funded_step h hf .collect) hcollect
    have hsymm : (fs.foldl step ((after es n).step .collect)).Alike (fs.foldl step (after es n)) :=
      ⟨hlast.now_eq.symm, hlast.nextCall_eq.symm, hlast.service.symm⟩
    exact ⟨hanswers.symm, hsymm.looksLike⟩

/-- A user unlocks a resource that their call for two resources may still
have to take back; then the call gives up. -/
def notedHistory : List Event :=
  [.declare ⟨"bed", 1, false⟩,
   .request ⟨"bed", [2], .one 20, none⟩,
   .request ⟨"bed", [1, 2], .one 10, some 100⟩,
   .unlock "bed" 1 (.one 10),
   .elapse 100,
   .wake 1]

/-- The lock is free after the unlock, but only dropped when the call is
over. -/
example : (after notedHistory 4).service.collectGarbage.1 = 0 ∧
    (after notedHistory 6).service.collectGarbage.1 = 1 := by decide

end Moment

end Backplane.Lock
