import Backplane.Proofs.Access.Expiry
import Mathlib.Algebra.Group.Nat.Defs
import Mathlib.Data.List.Perm.Basic
import Mathlib.Data.Multiset.AddSub
import Mathlib.Order.Nat

/-!
# `Backplane.Proofs.Access.Turnover`: what goes into a cache comes out once

Whoever owns a cache keeps things that have to be released for the values in
it, and relies on being handed each value once. A history is any list of
calls, with the answers that they got and at whatever times, in any order.
Two calls depend on the order in which the keys of a table are visited: a
search comes upon one of the entries that pass its test, and a sweep, which
collects the keys of all that pass and removes them one after the other,
takes them in some order. `Serves` lets either happen in any order of the
keys; the cache's own functions are the one case, in which the keys ascend.
The main statements:

* `takeEach_of_perm`: a sweep misses no key that it has collected and
  removes none of them twice. It hands back what `takeEntries` does, and
  leaves the same cache.
* `moves_of_serves`: what a single call does to the values and to the times.
* `History.books`: the books of a cache balance after every history.
* `neither_loses_nor_duplicates`: all of it about one history.
-/

set_option autoImplicit false

namespace Backplane.Access.Cache

open scoped List

/-! ### Calls and histories -/

/-- What can be asked of a cache. -/
inductive Call (κ ν : Type) where
  | insert (k : κ) (v : ν) (now : UInt64)
  | get (k : κ) (now : UInt64)
  | peek (k : κ) (now : UInt64)
  | find (now : UInt64) (p : ν → Bool)
  | remove (k : κ)
  | removeWhere (p : ν → Bool)
  | purge (now : UInt64)
  | live (now : UInt64)

/-- What a cache answers. A search tells its value only; the key is noted
because the lifetime of its entry starts anew. -/
inductive Answer (κ ν : Type) where
  | replaced (old : Option ν)
  | looked (l : Lookup ν)
  | found (k : Option κ) (v : Option ν)
  | removed (old : Option ν)
  | taken (vs : List ν)
  | listed (vs : List ν)

/-- A call and its answer. -/
structure Turn (κ ν : Type) where
  call : Call κ ν
  answer : Answer κ ν

variable {κ ν : Type}

/-- The values that a call puts in. -/
def Call.stored : Call κ ν → List ν
  | .insert _ v _ => [v]
  | _ => []

/-- The test of a call that sweeps the whole cache. -/
def Call.sweep? : Call κ ν → Option (Entry ν → Bool)
  | .removeWhere p => some fun e => p e.value
  | .purge now => some fun e => !e.isLive now
  | _ => none

/-- The values that are no longer stored, because the answer hands them back. -/
def Answer.handed : Answer κ ν → List ν
  | .replaced old => old.toList
  | .looked (.expired v) => [v]
  | .removed old => old.toList
  | .taken vs => vs
  | _ => []

/-- The key whose lifetime starts, by a write or by a look-up that hits, and
when. -/
def Turn.renewed : Turn κ ν → Option (κ × UInt64)
  | ⟨.insert k _ now, _⟩ => some (k, now)
  | ⟨.get k now, .looked (.hit _)⟩ => some (k, now)
  | ⟨.find now _, .found (some k) _⟩ => some (k, now)
  | _ => none

/-- All values that were ever put in. -/
def inserted (log : List (Turn κ ν)) : List ν := log.flatMap fun t => t.call.stored

/-- All values that were ever handed back. -/
def handedBack (log : List (Turn κ ν)) : List ν := log.flatMap fun t => t.answer.handed

/-- A sweep stores nothing and starts no lifetime. -/
theorem eq_of_sweep {call : Call κ ν} {p : Entry ν → Bool} (hsweep : call.sweep? = some p)
    (vs : List ν) : call.stored = [] ∧ Turn.renewed ⟨call, .taken vs⟩ = none := by
  cases call with
  | removeWhere | purge => exact ⟨rfl, rfl⟩
  | insert | get | peek | find | remove | live => cases hsweep

theorem inserted_append (log : List (Turn κ ν)) (t : Turn κ ν) :
    inserted (log ++ [t]) = inserted log ++ t.call.stored := by
  simp [inserted]

theorem handedBack_append (log : List (Turn κ ν)) (t : Turn κ ν) :
    handedBack (log ++ [t]) = handedBack log ++ t.answer.handed := by
  simp [handedBack]

section Calls

variable [DecidableEq κ]

/-- When the lifetime of a key started last. -/
def lastRenewal (log : List (Turn κ ν)) (k : κ) : Option UInt64 :=
  (((log.filterMap Turn.renewed).filter fun r => r.1 = k).map Prod.snd).getLast?

/-- Removes keys one after the other. -/
def takeEach (c : Cache κ ν) : List κ → List ν × Cache κ ν
  | [] => ([], c)
  | k :: keys =>
    ((c.remove k).1.toList ++ ((c.remove k).2.takeEach keys).1, ((c.remove k).2.takeEach keys).2)

variable [LT κ] [DecidableLT κ]

/-- A call, by the cache's own functions. -/
def perform (c : Cache κ ν) : Call κ ν → Answer κ ν × Cache κ ν
  | .insert k v now => (.replaced (c.insert k v now).1, (c.insert k v now).2)
  | .get k now => (.looked (c.get k now).1, (c.get k now).2)
  | .peek k now => (.looked (c.peek k now).1, (c.peek k now).2)
  | .find now p => (.found ((c.findEntry? now p).map Prod.fst) (c.find now p).1, (c.find now p).2)
  | .remove k => (.removed (c.remove k).1, (c.remove k).2)
  | .removeWhere p => (.taken (c.removeWhere p).1, (c.removeWhere p).2)
  | .purge now => (.taken (c.purge now).1, (c.purge now).2)
  | .live now => (.listed (c.live now), c)

/-- How a cache may serve a call, whatever the order of its keys. -/
inductive Serves (c : Cache κ ν) : Call κ ν → Answer κ ν → Cache κ ν → Prop
  /-- As the functions of the cache have it. -/
  | own (call : Call κ ν) : Serves c call (c.perform call).1 (c.perform call).2
  /-- A search comes upon a live entry that passes its test. -/
  | found {now : UInt64} {p : ν → Bool} {k : κ} {e : Entry ν} (hslot : c.slot? k = some e)
      (hlive : e.isLive now = true) (htest : p e.value = true) :
      Serves c (.find now p) (.found (some k) (some e.value)) (c.refresh k now)
  /-- A sweep collects its keys first, in some order, and then removes each. -/
  | swept {call : Call κ ν} {p : Entry ν → Bool} {keys : List κ} (hsweep : call.sweep? = some p)
      (hkeys : keys ~ c.keysWhere p) :
      Serves c call (.taken (c.takeEach keys).1) (c.takeEach keys).2

/-- What a cache of a lifetime has been asked and has answered, from its
making on. -/
inductive History (ttl : UInt64) : List (Turn κ ν) → Cache κ ν → Prop
  | start : History ttl [] (empty ttl)
  | turn {log : List (Turn κ ν)} {c c' : Cache κ ν} {call : Call κ ν} {answer : Answer κ ν}
      (h : History ttl log c) (hserves : c.Serves call answer c') :
      History ttl (log ++ [⟨call, answer⟩]) c'

/-! ### A sweep, key by key -/

omit [LT κ] [DecidableLT κ] in
theorem slot?_takeEach (c : Cache κ ν) (keys : List κ) (k : κ) :
    (c.takeEach keys).2.slot? k = if k ∈ keys then none else c.slot? k := by
  induction keys generalizing c with
  | nil => simp [takeEach]
  | cons k' keys ih =>
    show ((c.remove k').2.takeEach keys).2.slot? k = _
    rw [ih]
    show (if k ∈ keys then none
      else ({ c with table := c.table.erase k' } : Cache κ ν).slot? k) = _
    rw [slot?_erase]
    by_cases hk : k = k' <;> by_cases hmem : k ∈ keys <;> simp [hk, hmem]

omit [LT κ] [DecidableLT κ] in
theorem ttl_takeEach (c : Cache κ ν) (keys : List κ) : (c.takeEach keys).2.ttl = c.ttl := by
  induction keys generalizing c with
  | nil => rfl
  | cons k keys ih => exact ih (c.remove k).2

omit [DecidableLT κ] in
theorem ascending_takeEach {c : Cache κ ν} (hasc : c.table.Ascending) (keys : List κ) :
    (c.takeEach keys).2.table.Ascending := by
  induction keys generalizing c with
  | nil => exact hasc
  | cons k keys ih => exact ih (hasc.erase k)

omit [LT κ] [DecidableLT κ] in
/-- Different keys do not get in each other's way: each gives the value that
it had before the sweep. -/
theorem takeEach_fst {keys : List κ} (hnodup : keys.Nodup) (c : Cache κ ν) :
    (c.takeEach keys).1 = keys.filterMap c.value? := by
  induction keys generalizing c with
  | nil => rfl
  | cons k keys ih =>
    obtain ⟨hk, hnodup⟩ := List.nodup_cons.mp hnodup
    have hothers : keys.filterMap (c.remove k).2.value? = keys.filterMap c.value? := by
      refine List.filterMap_congr fun k' hk' => ?_
      have hne : k' ≠ k := fun heq => hk (heq ▸ hk')
      show ({ c with table := c.table.erase k } : Cache κ ν).value? k' = _
      rw [value?_erase, if_neg hne]
    show (c.value? k).toList ++ ((c.remove k).2.takeEach keys).1 = _
    rw [ih hnodup, hothers]
    cases hv : c.value? k with
    | none => rw [List.filterMap_cons_none hv]; rfl
    | some v => rw [List.filterMap_cons_some hv]; rfl

end Calls

section Order

variable [LinearOrder κ] {c c' : Cache κ ν} {ttl now : UInt64}

/-- The values of the keys that a sweep collects are those that `takeEntries`
hands back. -/
theorem filterMap_keysWhere (hasc : c.table.Ascending) (p : Entry ν → Bool) :
    (c.keysWhere p).filterMap c.value? = (c.takeEntries p).1 := by
  have hvalue : ∀ e ∈ c.table.entries.filter fun e => p e.2, c.value? e.1 = some e.2.value := by
    intro e he
    unfold value?
    rw [Table.get?_of_mem_entries hasc (List.mem_filter.mp he).1]
    rfl
  unfold keysWhere takeEntries Table.values
  rw [List.filterMap_map, List.filter_map, List.map_map, ← List.filterMap_eq_map]
  exact List.filterMap_congr hvalue

/-- A sweep, in whatever order, hands back what `takeEntries` does and leaves
the same cache: every key that it has collected is still there when its turn
comes, and no key is collected twice. -/
theorem takeEach_of_perm (hasc : c.table.Ascending) {p : Entry ν → Bool} {keys : List κ}
    (hkeys : keys ~ c.keysWhere p) :
    (c.takeEach keys).1 ~ (c.takeEntries p).1 ∧
      (c.takeEach keys).2 = (c.takeEntries p).2 := by
  constructor
  · rw [takeEach_fst (hkeys.nodup_iff.mpr (nodup_keysWhere hasc p)), ← filterMap_keysWhere hasc]
    exact hkeys.filterMap _
  · have hslot : ∀ k, (c.takeEach keys).2.slot? k = (c.takeEntries p).2.slot? k := by
      intro k
      have hmem : k ∈ keys ↔ ∃ e, c.slot? k = some e ∧ p e = true :=
        hkeys.mem_iff.trans (mem_keysWhere_iff hasc)
      rw [slot?_takeEach, slot?_takeEntries hasc]
      simp only [hmem]
      cases c.slot? k with
      | none => simp
      | some e => cases htest : p e <;> simp [Option.filter, htest]
    have htable : (c.takeEach keys).2.table = (c.takeEntries p).2.table :=
      Table.ext_get? (ascending_takeEach hasc keys) (hasc.filter _) hslot
    calc (c.takeEach keys).2
        = ⟨(c.takeEach keys).2.ttl, (c.takeEach keys).2.table⟩ := rfl
      _ = (c.takeEntries p).2 := by rw [ttl_takeEach, htable]; rfl

/-! ### The values before and after a call -/

omit [LinearOrder κ] in
/-- The values of the entries. -/
theorem contents_eq (c : Cache κ ν) : c.contents = c.table.entries.map fun e => e.2.value :=
  List.map_map ..

theorem contents_refresh (c : Cache κ ν) (k : κ) (now : UInt64) :
    (c.refresh k now).contents = c.contents := by
  rw [contents_eq, contents_eq]
  unfold refresh Table.adjust
  rw [List.map_map]
  refine List.map_congr_left fun e _ => ?_
  rw [Function.comp_apply]
  split <;> rfl

theorem perm_contents_remove (hasc : c.table.Ascending) (k : κ) :
    c.contents ~ (c.remove k).1.toList ++ (c.remove k).2.contents := by
  have hentries := (Table.perm_entries_erase hasc k).map fun e => e.2.value
  rw [contents_eq, contents_eq]
  refine hentries.trans (.of_eq ?_)
  unfold remove
  cases c.table.get? k <;> rfl

/-- A write takes the place of what a removal would take out. -/
theorem perm_contents_insert (hasc : c.table.Ascending) (k : κ) (v : ν) (now : UInt64) :
    v :: c.contents ~ (c.insert k v now).1.toList ++ (c.insert k v now).2.contents := by
  have hwritten := (Table.perm_entries_insert hasc k ⟨v, deadline c.ttl now⟩).map fun e => e.2.value
  have hinsert : (c.insert k v now).2.contents ~ v :: (c.remove k).2.contents := by
    rw [contents_eq, contents_eq]
    exact hwritten
  calc v :: c.contents
      ~ v :: ((c.remove k).1.toList ++ (c.remove k).2.contents) :=
        (perm_contents_remove hasc k).cons v
    _ ~ (c.remove k).1.toList ++ v :: (c.remove k).2.contents := List.perm_middle.symm
    _ ~ (c.insert k v now).1.toList ++ (c.insert k v now).2.contents :=
        hinsert.symm.append_left _

omit [LinearOrder κ] in
theorem perm_contents_takeEntries (c : Cache κ ν) (p : Entry ν → Bool) :
    c.contents ~ (c.takeEntries p).1 ++ (c.takeEntries p).2.contents := by
  have hsplit := (List.filter_append_perm p c.table.values).map Entry.value
  rw [List.map_append] at hsplit
  refine hsplit.symm.trans (.of_eq ?_)
  unfold takeEntries contents Table.values Table.filter
  rw [List.filter_map, List.filter_map]
  rfl

/-! ### What a call does -/

/-- Values are stored and handed back, and the lifetime of a key may start anew.
Every other entry that is left keeps its lifetime. -/
structure Moves (c : Cache κ ν) (stored handed : List ν) (renewed : Option (κ × UInt64))
    (c' : Cache κ ν) : Prop where
  ttl_eq : c'.ttl = c.ttl
  ascending : c'.table.Ascending
  balance : stored ++ c.contents ~ handed ++ c'.contents
  fresh : ∀ k now e, renewed = some (k, now) → c'.slot? k = some e →
    e.expiresAt = deadline c.ttl now
  kept : ∀ k e, (∀ now, renewed ≠ some (k, now)) → c'.slot? k = some e →
    ∃ e₀, c.slot? k = some e₀ ∧ e₀.expiresAt = e.expiresAt

theorem moves_nothing (hasc : c.table.Ascending) : Moves c [] [] none c :=
  ⟨rfl, hasc, .refl _, nofun, fun _ e _ hslot => ⟨e, hslot, rfl⟩⟩

theorem moves_refresh (hasc : c.table.Ascending) (k : κ) (now : UInt64) :
    Moves c [] [] (some (k, now)) (c.refresh k now) where
  ttl_eq := rfl
  ascending := hasc.adjust k _
  balance := .of_eq (contents_refresh c k now).symm
  fresh := by
    rintro k now e ⟨⟩ hslot
    rw [slot?_refresh, if_pos rfl, Option.map_eq_some_iff] at hslot
    obtain ⟨_, _, rfl⟩ := hslot
    rfl
  kept := by
    intro k' e hother hslot
    have hne : k' ≠ k := fun heq => hother now (heq ▸ rfl)
    rw [slot?_refresh, if_neg hne] at hslot
    exact ⟨e, hslot, rfl⟩

theorem moves_remove (hasc : c.table.Ascending) (k : κ) :
    Moves c [] (c.remove k).1.toList none (c.remove k).2 where
  ttl_eq := rfl
  ascending := hasc.erase k
  balance := perm_contents_remove hasc k
  fresh := nofun
  kept := by
    intro k' e _ hslot
    replace hslot := (slot?_erase c k k').symm.trans hslot
    split at hslot
    · cases hslot
    · exact ⟨e, hslot, rfl⟩

/-- A removal hands back what it finds. -/
theorem moves_remove_of_slot? (hasc : c.table.Ascending) {k : κ} {e : Entry ν}
    (hslot : c.slot? k = some e) : Moves c [] [e.value] none (c.remove k).2 := by
  have hremove := moves_remove hasc k
  have hvalue : (c.remove k).1 = some e.value := congrArg (Option.map Entry.value) hslot
  rw [hvalue] at hremove
  exact hremove

theorem moves_insert (hasc : c.table.Ascending) (k : κ) (v : ν) (now : UInt64) :
    Moves c [v] (c.insert k v now).1.toList (some (k, now)) (c.insert k v now).2 where
  ttl_eq := rfl
  ascending := Table.ascending_insert hasc k _
  balance := perm_contents_insert hasc k v now
  fresh := by
    rintro k now e ⟨⟩ hslot
    rw [slot?_insert, if_pos rfl] at hslot
    cases hslot
    rfl
  kept := by
    intro k' e hother hslot
    have hne : k' ≠ k := fun heq => hother now (heq ▸ rfl)
    rw [slot?_insert, if_neg hne] at hslot
    exact ⟨e, hslot, rfl⟩

theorem moves_takeEntries (hasc : c.table.Ascending) (p : Entry ν → Bool) :
    Moves c [] (c.takeEntries p).1 none (c.takeEntries p).2 where
  ttl_eq := rfl
  ascending := hasc.filter _
  balance := perm_contents_takeEntries c p
  fresh := nofun
  kept := by
    intro k e _ hslot
    rw [slot?_takeEntries hasc, Option.filter_eq_some_iff] at hslot
    exact ⟨e, hslot.1, rfl⟩

/-- The order in which values are handed back does not matter. -/
theorem Moves.of_perm {stored handed handed' : List ν} {renewed : Option (κ × UInt64)}
    (h : Moves c stored handed renewed c') (hperm : handed' ~ handed) :
    Moves c stored handed' renewed c' :=
  { h with balance := h.balance.trans (hperm.symm.append_right _) }

/-- A look-up that leaves lifetimes alone. -/
theorem moves_peek (hasc : c.table.Ascending) (k : κ) (now : UInt64) :
    Moves c [] (Answer.looked (κ := κ) (c.peek k now).1).handed none (c.peek k now).2 := by
  rw [peek_eq]
  cases hslot : c.slot? k with
  | none => exact moves_nothing hasc
  | some e =>
    cases hlive : e.isLive now with
    | true =>
      simp only [hlive, if_true]
      exact moves_nothing hasc
    | false =>
      simp only [hlive, Bool.false_eq_true, if_false]
      exact moves_remove_of_slot? hasc hslot

/-- A look-up that starts lifetimes anew. -/
theorem moves_get (hasc : c.table.Ascending) (k : κ) (now : UInt64) :
    Moves c [] (Answer.looked (κ := κ) (c.get k now).1).handed
      (Turn.renewed ⟨.get k now, .looked (c.get k now).1⟩) (c.get k now).2 := by
  rw [get_by_entry]
  cases hslot : c.slot? k with
  | none => exact moves_nothing hasc
  | some e =>
    cases hlive : e.isLive now with
    | true =>
      simp only [hlive, if_true]
      exact moves_refresh hasc k now
    | false =>
      simp only [hlive, Bool.false_eq_true, if_false]
      exact moves_remove_of_slot? hasc hslot

/-- A search. -/
theorem moves_find (hasc : c.table.Ascending) (now : UInt64) (p : ν → Bool) :
    Moves c [] [] (((c.findEntry? now p).map Prod.fst).map fun k => (k, now)) (c.find now p).2 := by
  unfold find
  cases c.findEntry? now p with
  | none => exact moves_nothing hasc
  | some found => exact moves_refresh hasc found.1 now

theorem moves_perform (hasc : c.table.Ascending) (call : Call κ ν) :
    Moves c call.stored (c.perform call).1.handed (Turn.renewed ⟨call, (c.perform call).1⟩)
      (c.perform call).2 := by
  cases call with
  | insert k v now => exact moves_insert hasc k v now
  | get k now => exact moves_get hasc k now
  | peek k now => exact moves_peek hasc k now
  | find now p =>
    have hfind := moves_find hasc now p
    show Moves c [] [] (Turn.renewed ⟨.find now p, .found ((c.findEntry? now p).map Prod.fst)
      (c.find now p).1⟩) (c.find now p).2
    cases hkey : (c.findEntry? now p).map Prod.fst <;> rw [hkey] at hfind <;> exact hfind
  | remove k => exact moves_remove hasc k
  | removeWhere p => exact moves_takeEntries hasc _
  | purge now => exact moves_takeEntries hasc _
  | live now => exact moves_nothing hasc

/-- What a call does, in whatever order the cache visits its keys. -/
theorem moves_of_serves (hasc : c.table.Ascending) {call : Call κ ν} {answer : Answer κ ν}
    (h : c.Serves call answer c') :
    Moves c call.stored answer.handed (Turn.renewed ⟨call, answer⟩) c' := by
  cases h with
  | own => exact moves_perform hasc call
  | found hslot hlive htest => exact moves_refresh hasc _ _
  | @swept _ p keys hsweep hkeys =>
    obtain ⟨hperm, hsame⟩ := takeEach_of_perm hasc hkeys
    obtain ⟨hstored, hrenewed⟩ := eq_of_sweep hsweep (c.takeEach keys).1
    rw [hstored, hrenewed, hsame]
    exact (moves_takeEntries hasc p).of_perm hperm

/-! ### Whole histories -/

/-- The last turn is the last renewal of its key. -/
theorem lastRenewal_append_self {log : List (Turn κ ν)} {t : Turn κ ν} {k : κ}
    (h : t.renewed = some (k, now)) : lastRenewal (log ++ [t]) k = some now := by
  simp [lastRenewal, List.filterMap_append, h]

theorem lastRenewal_append_other {log : List (Turn κ ν)} {t : Turn κ ν} {k : κ}
    (h : ∀ now, t.renewed ≠ some (k, now)) : lastRenewal (log ++ [t]) k = lastRenewal log k := by
  unfold lastRenewal
  rw [List.filterMap_append, List.filter_append]
  cases hrenewed : t.renewed with
  | none => simp [hrenewed]
  | some r =>
    obtain ⟨k', now⟩ := r
    have hne : k' ≠ k := fun heq => h now (heq ▸ hrenewed)
    simp [hrenewed, hne]

/-- The books of a cache: what was put in is there or was handed back, and
every entry expires one lifetime after its last renewal. -/
structure Books (ttl : UInt64) (log : List (Turn κ ν)) (c : Cache κ ν) : Prop where
  ttl_eq : c.ttl = ttl
  ascending : c.table.Ascending
  balance : inserted log ~ handedBack log ++ c.contents
  expiry : ∀ k e, c.slot? k = some e →
    ∃ now, lastRenewal log k = some now ∧ e.expiresAt = deadline ttl now

theorem books_start (ttl : UInt64) : Books ttl [] (empty ttl : Cache κ ν) :=
  ⟨rfl, Table.ascending_empty, .refl _, nofun⟩

theorem Books.turn {log : List (Turn κ ν)} (h : Books ttl log c) {t : Turn κ ν}
    (hmoves : Moves c t.call.stored t.answer.handed t.renewed c') :
    Books ttl (log ++ [t]) c' where
  ttl_eq := hmoves.ttl_eq.trans h.ttl_eq
  ascending := hmoves.ascending
  balance := by
    rw [inserted_append, handedBack_append]
    calc inserted log ++ t.call.stored
        ~ handedBack log ++ c.contents ++ t.call.stored := h.balance.append_right _
      _ ~ handedBack log ++ (t.call.stored ++ c.contents) := by
          rw [List.append_assoc]
          exact List.perm_append_comm.append_left _
      _ ~ handedBack log ++ (t.answer.handed ++ c'.contents) := hmoves.balance.append_left _
      _ ~ handedBack log ++ t.answer.handed ++ c'.contents := .of_eq (List.append_assoc ..).symm
  expiry := by
    intro k e hslot
    by_cases hrenewed : ∃ now, t.renewed = some (k, now)
    · obtain ⟨now, hnow⟩ := hrenewed
      exact ⟨now, lastRenewal_append_self hnow, h.ttl_eq ▸ hmoves.fresh k now e hnow hslot⟩
    · -- The entry was there, and its time has stayed as it was.
      rw [not_exists] at hrenewed
      obtain ⟨e₀, hslot₀, hsame⟩ := hmoves.kept k e hrenewed hslot
      obtain ⟨now, hlast, hexpiry⟩ := h.expiry k e₀ hslot₀
      exact ⟨now, (lastRenewal_append_other hrenewed).trans hlast, hsame ▸ hexpiry⟩

theorem History.books {log : List (Turn κ ν)} (h : History ttl log c) : Books ttl log c := by
  induction h with
  | start => exact books_start ttl
  | turn _ hserves ih => exact ih.turn (moves_of_serves ih.ascending hserves)

/-! ### What a sweep takes -/

/-- A sweep takes the values of the entries that pass its test, and leaves
the other entries as they are. -/
theorem handed_of_sweep (hasc : c.table.Ascending) {call : Call κ ν} {p : Entry ν → Bool}
    (hsweep : call.sweep? = some p) {answer : Answer κ ν} (h : c.Serves call answer c') :
    answer.handed ~ (c.table.values.filter p).map Entry.value ∧
      ∀ k, c'.slot? k = (c.slot? k).filter fun e => !p e := by
  cases h with
  | own =>
    cases call with
    | removeWhere | purge =>
      cases hsweep
      exact ⟨.refl _, slot?_takeEntries hasc _⟩
    | insert | get | peek | find | remove | live => cases hsweep
  | found => cases hsweep
  | swept hsweep' hkeys =>
    obtain rfl := Option.some.inj (hsweep.symm.trans hsweep')
    obtain ⟨hperm, hsame⟩ := takeEach_of_perm hasc hkeys
    rw [hsame]
    exact ⟨hperm, slot?_takeEntries hasc p⟩

/-- An entry that is not live has expired. -/
theorem not_isLive_eq (e : Entry ν) (now : UInt64) :
    (!e.isLive now) = decide (e.expiresAt ≤ now) := by
  rw [Entry.isLive, ← decide_not, decide_eq_decide, UInt64.not_lt]

/-- Nothing that was put in is lost or handed back twice, whatever the calls,
the times that they came with and the order in which the keys were visited. No
key has two entries, and every entry expires one lifetime after its last write
or refresh, or at the last time there is. A removal by a test takes the values
that pass it and no others, a purge those that have expired, and both leave the
rest with its times. -/
theorem neither_loses_nor_duplicates {log : List (Turn κ ν)} (h : History ttl log c) :
    (inserted log : Multiset ν) = c.contents + handedBack log ∧
    c.table.keys.Nodup ∧
    (∀ k e, (k, e) ∈ c.table.entries → ∃ now, lastRenewal log k = some now ∧
      e.expiresAt.toNat = min (now.toNat + ttl.toNat) (2 ^ 64 - 1)) ∧
    (∀ p answer c', c.Serves (.removeWhere p) answer c' →
      (answer.handed : Multiset ν) = c.contents.filter p ∧
      ∀ k, c'.slot? k = (c.slot? k).filter fun e => !p e.value) ∧
    ∀ now answer c', c.Serves (.purge now) answer c' →
      (answer.handed : Multiset ν)
        = (c.table.values.filter fun e => e.expiresAt ≤ now).map Entry.value ∧
      ∀ k, c'.slot? k = (c.slot? k).filter fun e => !decide (e.expiresAt ≤ now) := by
  have hbooks := h.books
  have hasc := hbooks.ascending
  refine ⟨?balance, ?once, ?expiry, ?removed, ?purged⟩
  case balance =>
    rw [Multiset.coe_add, Multiset.coe_eq_coe]
    exact hbooks.balance.trans List.perm_append_comm
  case once => exact hasc.keys.imp ne_of_lt
  case expiry =>
    intro k e he
    obtain ⟨now, hlast, hexpiry⟩ := hbooks.expiry k e (Table.get?_of_mem_entries hasc he)
    refine ⟨now, hlast, ?_⟩
    rw [hexpiry, toNat_deadline]
    rfl
  case removed =>
    intro p answer c' hserves
    obtain ⟨hhanded, hleft⟩ := handed_of_sweep hasc rfl hserves
    refine ⟨Multiset.coe_eq_coe.mpr (hhanded.trans (.of_eq ?_)), hleft⟩
    unfold contents
    rw [List.filter_map]
    rfl
  case purged =>
    intro now answer c' hserves
    obtain ⟨hhanded, hleft⟩ := handed_of_sweep hasc rfl hserves
    simp only [not_isLive_eq] at hhanded hleft
    exact ⟨Multiset.coe_eq_coe.mpr hhanded, hleft⟩

/-- A value is replaced, one is refreshed, one is found expired, and a sweep
takes two, the larger key first. -/
theorem neither_loses_nor_duplicates_of_eight_turns :
    ∃ (log : List (Turn Nat Nat)) (c : Cache Nat Nat), History 10 log c ∧
      inserted log = [7, 8, 9, 6, 5] ∧ handedBack log = [7, 9, 5, 6] ∧
      c.table.entries = [(2, ⟨8, 65⟩)] ∧ lastRenewal log 2 = some 55 ∧
      (inserted log : Multiset Nat) = c.contents + handedBack log := by
  have hstart : History 10 [] (empty 10 : Cache Nat Nat) := .start
  have hreplaced := ((hstart.turn (.own (.insert 1 7 100))).turn (.own (.insert 2 8 50))).turn
    (.own (.insert 1 9 20))
  have hlooked := (hreplaced.turn (.own (.get 2 55))).turn (.own (.peek 1 40))
  have hstored := (hlooked.turn (.own (.insert 3 6 (2 ^ 64 - 1)))).turn (.own (.insert 4 5 0))
  have hswept := hstored.turn
    (.swept (rfl : (Call.removeWhere fun v => decide (v < 7)).sweep? = _) (.swap 3 4 []))
  exact ⟨_, _, hswept, rfl, rfl, rfl, rfl, (neither_loses_nor_duplicates hswept).1⟩

end Order

end Backplane.Access.Cache
