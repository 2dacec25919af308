import Backplane.Proofs.Access.Cache
import Mathlib.Data.List.Perm.Basic

/-!
# `Backplane.Proofs.Access.Expiry`: entries of a cache and their time

`Backplane.Proofs.Access.Cache` follows the values of a cache. Here their
times are followed as well: for each operation, the entry of every key
afterwards, with the moment at which it expires. The main statements:

* `isLive_iff`: an entry is live before the end of its lifetime, which is
  the last time there is at the latest.
* `slot?_refresh`, `slot?_get`, `slot?_erase`, `slot?_insert`,
  `slot?_takeEntries`: the entry of a key after each operation.
* `get_by_entry`, `find_cases`: what a look-up and a search give back.
* `finds_some_iff`, `finds_none_iff`: what searches find that visit the
  entries in another order.
* `mem_live_iff`, `nodup_live`, `length_filter_live_le_one`: the live values.
-/

set_option autoImplicit false

namespace Backplane.Access.Cache

/-! ### Times -/

/-- A lifetime ends one lifetime after its start, or at the last time there
is. -/
theorem toNat_deadline (ttl now : UInt64) :
    (deadline ttl now).toNat = min (now.toNat + ttl.toNat) lastTime := by
  -- The sum may be too large for 64 bits, but the last time is not.
  have hlt : min (now.toNat + ttl.toNat) lastTime < UInt64.size := by
    show min (now.toNat + ttl.toNat) 18446744073709551615 < 18446744073709551616
    omega
  exact UInt64.toNat_ofNat_of_lt' hlt

variable {κ ν : Type} {e : Entry ν} {now now' : UInt64}

theorem isLive_iff_lt : e.isLive now = true ↔ now.toNat < e.expiresAt.toNat := by
  rw [Entry.isLive, decide_eq_true_iff, UInt64.lt_iff_toNat_lt]

/-- What is live was live before. -/
theorem isLive_mono (hle : now ≤ now') (h : e.isLive now' = true) : e.isLive now = true := by
  rw [isLive_iff_lt] at h ⊢
  rw [UInt64.le_iff_toNat_le] at hle
  omega

/-- An entry that was written or refreshed at a time is live until the end of
its lifetime. -/
theorem isLive_iff {v : ν} {ttl start : UInt64} :
    (⟨v, deadline ttl start⟩ : Entry ν).isLive now = true ↔
      now.toNat < min (start.toNat + ttl.toNat) lastTime := by
  rw [isLive_iff_lt, toNat_deadline]

/-! ### The entry of a key -/

/-- The entry with a new lifetime, provided that the old one is not over. -/
def Entry.renew? (e : Entry ν) (ttl now : UInt64) : Option (Entry ν) :=
  if e.isLive now then some ⟨e.value, deadline ttl now⟩ else none

theorem renew?_eq_some {ttl : UInt64} {e' : Entry ν} :
    e.renew? ttl now = some e' ↔ e.isLive now = true ∧ e' = ⟨e.value, deadline ttl now⟩ := by
  unfold Entry.renew?
  split
  · rename_i hlive
    simp [hlive, eq_comm]
  · rename_i hlive
    simp [hlive]

variable [DecidableEq κ]

/-- The entry of a key, live or expired. -/
def slot? (c : Cache κ ν) (k : κ) : Option (Entry ν) := c.table.get? k

variable {c : Cache κ ν} {k k' : κ} {v : ν}

theorem holds_of_slot? (h : c.slot? k = some e) : c.Holds k e.value :=
  ⟨e, Table.mem_entries_of_get? h, rfl⟩

theorem slot?_refresh (c : Cache κ ν) (k k' : κ) (now : UInt64) :
    (c.refresh k now).slot? k' = if k' = k
      then (c.slot? k).map fun e => ⟨e.value, deadline c.ttl now⟩ else c.slot? k' := by
  show (c.table.adjust k _).get? k' = _
  rw [Table.get?_adjust]
  split
  · rename_i hk
    subst hk
    rfl
  · rfl

/-- A lifetime that starts anew adds no key and drops none. -/
theorem keys_refresh (c : Cache κ ν) (k : κ) (now : UInt64) :
    (c.refresh k now).table.keys = c.table.keys := by
  unfold refresh Table.adjust Table.keys
  rw [List.map_map]
  refine List.map_congr_left fun e _ => ?_
  rw [Function.comp_apply]
  split <;> rfl

theorem slot?_erase (c : Cache κ ν) (k k' : κ) :
    ({ c with table := c.table.erase k } : Cache κ ν).slot? k'
      = if k' = k then none else c.slot? k' :=
  Table.get?_erase c.table k k'

theorem slot?_insert [LT κ] [DecidableLT κ] (c : Cache κ ν) (k k' : κ) (v : ν) (now : UInt64) :
    (c.insert k v now).2.slot? k'
      = if k' = k then some ⟨v, deadline c.ttl now⟩ else c.slot? k' :=
  Table.get?_insert c.table k k' _

/-- Entries are taken out, in a cache in key order. -/
theorem slot?_takeEntries [Preorder κ] (hasc : c.table.Ascending) (p : Entry ν → Bool) (k : κ) :
    (c.takeEntries p).2.slot? k = (c.slot? k).filter fun e => !p e :=
  Table.get?_filter hasc _ k

/-- A look-up that leaves lifetimes alone. -/
theorem peek_eq (c : Cache κ ν) (k : κ) (now : UInt64) :
    c.peek k now = match c.slot? k with
      | none => (.miss, c)
      | some e =>
        if e.isLive now then (.hit e.value, c)
        else (.expired e.value, { c with table := c.table.erase k }) := rfl

/-- A look-up starts the lifetime of a live entry anew, and takes an expired
one out. -/
theorem get_by_entry (c : Cache κ ν) (k : κ) (now : UInt64) :
    c.get k now = match c.slot? k with
      | none => (.miss, c)
      | some e =>
        if e.isLive now then (.hit e.value, c.refresh k now)
        else (.expired e.value, { c with table := c.table.erase k }) := by
  rw [get_eq, peek_eq]
  cases c.slot? k with
  | none => rfl
  | some e => cases hlive : e.isLive now <;> simp [hlive]

theorem slot?_get (c : Cache κ ν) (k k' : κ) (now : UInt64) :
    (c.get k now).2.slot? k'
      = if k' = k then (c.slot? k).bind fun e => e.renew? c.ttl now else c.slot? k' := by
  rw [get_by_entry]
  cases hentry : c.slot? k with
  | none =>
    by_cases hk : k' = k
    · simp [hk, hentry]
    · simp [hk]
  | some e =>
    cases hlive : e.isLive now with
    | true => simp [hlive, slot?_refresh, hentry, Entry.renew?]
    | false => simp [hlive, slot?_erase, Entry.renew?]

/-- A search gives back a live value that passes its test, whose lifetime
starts anew, unless there is none. -/
theorem find_cases [Preorder κ] (hasc : c.table.Ascending) (now : UInt64) (p : ν → Bool) :
    (c.find now p = (none, c) ∧ ∀ k e, c.slot? k = some e → e.isLive now = true →
      p e.value = false) ∨
    ∃ k e, c.slot? k = some e ∧ e.isLive now = true ∧ p e.value = true ∧
      c.find now p = (some e.value, c.refresh k now) := by
  unfold find
  cases hfind : c.findEntry? now p with
  | none =>
    refine .inl ⟨rfl, fun k e hentry hlive => ?_⟩
    have hno := List.find?_eq_none.mp hfind (k, e) (Table.mem_entries_of_get? hentry)
    simpa [hlive] using hno
  | some found =>
    obtain ⟨k, e⟩ := found
    have htest := List.find?_some hfind
    rw [Bool.and_eq_true] at htest
    exact .inr ⟨k, e, Table.get?_of_mem_entries hasc (List.mem_of_find?_eq_some hfind), htest.1,
      htest.2, rfl⟩

/-! ### Searches in any order -/

/-- What a search for a live value that passes a test finds, if it visits the
entries in some order. -/
def Finds (c : Cache κ ν) (now : UInt64) (p : ν → Bool) (found : Option (κ × Entry ν)) : Prop :=
  ∃ es : List (κ × Entry ν), es.Perm c.table.entries ∧
    es.find? (fun e => e.2.isLive now && p e.2.value) = found

variable {p : ν → Bool}

omit [DecidableEq κ] in
/-- One of the orders is that of the keys. -/
theorem finds_findEntry? (c : Cache κ ν) (now : UInt64) (p : ν → Bool) :
    c.Finds now p (c.findEntry? now p) :=
  ⟨c.table.entries, .refl _, rfl⟩

/-- Each live entry that passes the test is found in some order, and no other. -/
theorem finds_some_iff [Preorder κ] (hasc : c.table.Ascending) {k : κ} {e : Entry ν} :
    c.Finds now p (some (k, e)) ↔
      c.slot? k = some e ∧ e.isLive now = true ∧ p e.value = true := by
  constructor
  · rintro ⟨es, hperm, hfind⟩
    have hmem := hperm.mem_iff.mp (List.mem_of_find?_eq_some hfind)
    have htest := List.find?_some hfind
    exact ⟨Table.get?_of_mem_entries hasc hmem, Bool.and_eq_true_iff.mp htest⟩
  · rintro ⟨hentry, hlive, hp⟩
    -- An order in which it comes first.
    obtain ⟨front, back, hsplit⟩ := List.append_of_mem (Table.mem_entries_of_get? hentry)
    refine ⟨(k, e) :: (front ++ back), ?_, List.find?_cons_of_pos (by simp [hlive, hp])⟩
    rw [hsplit]
    exact List.perm_middle.symm

/-- A search finds nothing if there is none, whatever its order. -/
theorem finds_none_iff [Preorder κ] (hasc : c.table.Ascending) :
    c.Finds now p none ↔
      ∀ k e, c.slot? k = some e → e.isLive now = true → p e.value = false := by
  constructor
  · rintro ⟨es, hperm, hfind⟩ k e hentry hlive
    have hmem := hperm.mem_iff.mpr (Table.mem_entries_of_get? hentry)
    simpa [hlive] using List.find?_eq_none.mp hfind (k, e) hmem
  · intro hno
    refine ⟨c.table.entries, .refl _, List.find?_eq_none.mpr fun ⟨k, e⟩ hmem htest => ?_⟩
    obtain ⟨hlive, hp⟩ := Bool.and_eq_true_iff.mp htest
    rw [hno k e (Table.get?_of_mem_entries hasc hmem) hlive] at hp
    cases hp

/-- So the order does not matter if all live entries that pass the test have one
key. -/
theorem Finds.eq_findEntry? [Preorder κ] (hasc : c.table.Ascending)
    (hone : ∀ k e k' e', c.slot? k = some e → c.slot? k' = some e' → e.isLive now = true →
      e'.isLive now = true → p e.value = true → p e'.value = true → k = k')
    {found : Option (κ × Entry ν)} (h : c.Finds now p found) : found = c.findEntry? now p := by
  have hsome : ∀ {x y}, c.Finds now p (some x) → c.Finds now p y → some x = y := by
    intro x y hx hy
    obtain ⟨hentry, hlive, hp⟩ := (finds_some_iff hasc).mp hx
    cases y with
    | none =>
      rw [(finds_none_iff hasc).mp hy _ _ hentry hlive] at hp
      cases hp
    | some y =>
      obtain ⟨hentry', hlive', hp'⟩ := (finds_some_iff hasc).mp hy
      have hkey : x.1 = y.1 := hone _ _ _ _ hentry hentry' hlive hlive' hp hp'
      have hvalue : x.2 = y.2 := Option.some.inj (hentry.symm.trans (hkey ▸ hentry'))
      exact congrArg some (Prod.ext hkey hvalue)
  have hfirst := c.finds_findEntry? now p
  cases found with
  | some x => exact hsome h hfirst
  | none =>
    cases hfind : c.findEntry? now p with
    | none => rfl
    | some x => exact (hsome (hfind ▸ hfirst) h).symm

/-! ### The live values -/

theorem mem_live_iff [Preorder κ] (hasc : c.table.Ascending) :
    v ∈ c.live now ↔ ∃ k e, c.slot? k = some e ∧ e.isLive now = true ∧ e.value = v := by
  unfold live Table.values
  rw [List.mem_map]
  constructor
  · rintro ⟨e, he, rfl⟩
    obtain ⟨he, hlive⟩ := List.mem_filter.mp he
    obtain ⟨⟨k, e'⟩, hmem, rfl⟩ := List.mem_map.mp he
    exact ⟨k, e', Table.get?_of_mem_entries hasc hmem, hlive, rfl⟩
  · rintro ⟨k, e, hentry, hlive, rfl⟩
    have hmem : e ∈ c.table.entries.map Prod.snd :=
      List.mem_map.mpr ⟨(k, e), Table.mem_entries_of_get? hentry, rfl⟩
    exact ⟨e, List.mem_filter.mpr ⟨hmem, hlive⟩, rfl⟩

omit [DecidableEq κ] in
/-- The live values are those of the live entries, in key order. -/
theorem live_eq (c : Cache κ ν) (now : UInt64) :
    c.live now = (c.table.entries.filter fun e => e.2.isLive now).map fun e => e.2.value := by
  unfold live Table.values
  rw [List.filter_map, List.map_map]
  rfl

/-- The live values are listed once each if every value stands under one key. -/
theorem nodup_live [Preorder κ] (hasc : c.table.Ascending)
    (hone : ∀ k e k' e', c.slot? k = some e → c.slot? k' = some e' → e.value = e'.value →
      k = k') : (c.live now).Nodup := by
  rw [live_eq]
  have hentry : ∀ a ∈ c.table.entries.filter fun e => e.2.isLive now, c.slot? a.1 = some a.2 :=
    fun a ha => Table.get?_of_mem_entries hasc (List.mem_filter.mp ha).1
  have hsorted : (c.table.entries.filter fun e => e.2.isLive now).Pairwise fun a b => a.1 < b.1 :=
    hasc.filter fun _ e => e.isLive now
  rw [List.Nodup, List.pairwise_map]
  refine hsorted.imp_of_mem fun {a b} ha hb hlt heq => ?_
  rw [hone a.1 a.2 b.1 b.2 (hentry a ha) (hentry b hb) heq] at hlt
  exact lt_irrefl _ hlt

omit [DecidableEq κ] in
/-- A purge leaves the live values. -/
theorem live_purge (c : Cache κ ν) (now : UInt64) : (c.purge now).2.live now = c.live now := by
  rw [live_eq, live_eq]
  show ((c.table.entries.filter fun e => !(!e.2.isLive now)).filter _).map _ = _
  simp only [Bool.not_not, List.filter_filter, Bool.and_self]

/-- At most one live value passes a test, if all live entries whose values pass
it have one key. -/
theorem length_filter_live_le_one [Preorder κ] (hasc : c.table.Ascending) (p : ν → Bool)
    (hone : ∀ k e k' e', c.slot? k = some e → c.slot? k' = some e' → e.isLive now = true →
      e'.isLive now = true → p e.value = true → p e'.value = true → k = k') :
    ((c.live now).filter p).length ≤ 1 := by
  rw [live_eq, List.filter_map, List.length_map, List.filter_filter]
  have hsorted := hasc.filter fun _ e => p e.value && e.isLive now
  replace hsorted : (c.table.entries.filter fun e => p e.2.value && e.2.isLive now).Pairwise
    fun a b => a.1 < b.1 := hsorted
  have hentries : ∀ a ∈ c.table.entries.filter fun e => p e.2.value && e.2.isLive now,
      c.slot? a.1 = some a.2 ∧ a.2.isLive now = true ∧ p a.2.value = true := by
    intro a ha
    obtain ⟨hmem, htest⟩ := List.mem_filter.mp ha
    rw [Bool.and_eq_true] at htest
    exact ⟨Table.get?_of_mem_entries hasc hmem, htest.2, htest.1⟩
  show (c.table.entries.filter fun e => p e.2.value && e.2.isLive now).length ≤ 1
  generalize c.table.entries.filter (fun e => p e.2.value && e.2.isLive now) = l
    at hsorted hentries ⊢
  match l with
  | [] => exact Nat.zero_le 1
  | [_] => exact Nat.le_refl 1
  | a :: b :: _ =>
    -- Two entries would have one key, and the keys ascend.
    have hlt : a.1 < b.1 := (List.pairwise_cons.mp hsorted).1 b List.mem_cons_self
    obtain ⟨ha, halive, hap⟩ := hentries a List.mem_cons_self
    obtain ⟨hb, hblive, hbp⟩ := hentries b (List.mem_cons_of_mem _ List.mem_cons_self)
    rw [hone a.1 a.2 b.1 b.2 ha hb halive hblive hap hbp] at hlt
    exact absurd hlt (lt_irrefl _)

end Backplane.Access.Cache
