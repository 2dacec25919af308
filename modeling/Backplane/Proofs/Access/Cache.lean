import Backplane.Access.Cache
import Backplane.Proofs.Data.Table

/-!
# `Backplane.Proofs.Access.Cache`: where the values of a cache come from

Apart from `insert`, no operation of a cache stores anything: it drops
entries, or changes how long they live. `Within` says so, and each
operation has its lemma. `Drops` says it exactly: which keys lose their
values. The main statements:

* `Within`: every entry was there before, under the same key and with the
  same value.
* `holds_of_get`, `holds_of_find`: what a look-up hits is there.
* `drops_get`, `drops_erase`, `drops_takeEntries`: an operation hands back
  what it drops.
-/

set_option autoImplicit false

namespace Backplane.Access.Cache

variable {κ ν : Type}

/-- The key has an entry with the value. -/
def Holds (c : Cache κ ν) (k : κ) (v : ν) : Prop := ∃ e, (k, e) ∈ c.table.entries ∧ e.value = v

/-- The keys whose entries pass a test. -/
def keysWhere (c : Cache κ ν) (p : Entry ν → Bool) : List κ :=
  (c.table.entries.filter fun e => p e.2).map Prod.fst

/-- Every value of `c'` stands in `c` under the same key. -/
def Within (c c' : Cache κ ν) : Prop := ∀ k v, c'.Holds k v → c.Holds k v

theorem Within.refl (c : Cache κ ν) : Within c c := fun _ _ h => h

theorem Within.trans {c₁ c₂ c₃ : Cache κ ν} (h : Within c₁ c₂) (h' : Within c₂ c₃) :
    Within c₁ c₃ :=
  fun k v hv => h k v (h' k v hv)

/-- Some entries are dropped. -/
theorem within_filter (c : Cache κ ν) (p : κ × Entry ν → Bool) :
    Within c { c with table := ⟨c.table.entries.filter p⟩ } := by
  rintro k v ⟨e, he, hv⟩
  exact ⟨e, (List.mem_filter.mp he).1, hv⟩

theorem within_takeEntries (c : Cache κ ν) (p : Entry ν → Bool) :
    Within c (c.takeEntries p).2 :=
  within_filter c _

/-- A value that was taken out stands nowhere any more. -/
theorem not_holds_removeWhere {c : Cache κ ν} {p : ν → Bool} {k : κ} {v : ν}
    (h : (c.removeWhere p).2.Holds k v) : p v = false := by
  obtain ⟨e, he, hv⟩ := h
  have hkept : (!p e.value) = true := (List.mem_filter.mp he).2
  rw [hv, Bool.not_eq_true'] at hkept
  exact hkept

variable [DecidableEq κ]

theorem within_refresh (c : Cache κ ν) (k : κ) (now : UInt64) : Within c (c.refresh k now) := by
  rintro k' v ⟨e, he, hv⟩
  obtain ⟨⟨k₀, e₀⟩, he₀, heq⟩ := List.mem_map.mp he
  split at heq
  · cases heq
    exact ⟨e₀, he₀, hv⟩
  · cases heq
    exact ⟨e, he₀, hv⟩

theorem within_peek (c : Cache κ ν) (k : κ) (now : UInt64) : Within c (c.peek k now).2 := by
  unfold peek
  split
  · exact Within.refl c
  · split
    · exact Within.refl c
    · exact within_filter c _

/-- A look-up either refreshes the entry that it hits, or looks on. -/
theorem get_eq (c : Cache κ ν) (k : κ) (now : UInt64) :
    c.get k now = ((c.peek k now).1,
      match (c.peek k now).1 with
      | .hit _ => (c.peek k now).2.refresh k now
      | _ => (c.peek k now).2) := by
  unfold get
  rcases c.peek k now with ⟨_ | _ | _, _⟩ <;> rfl

theorem within_get (c : Cache κ ν) (k : κ) (now : UInt64) : Within c (c.get k now).2 := by
  have hpeek := within_peek c k now
  rw [get_eq]
  show Within c (match (c.peek k now).1 with
    | .hit _ => (c.peek k now).2.refresh k now
    | _ => (c.peek k now).2)
  split
  · exact hpeek.trans (within_refresh _ k now)
  · exact hpeek

theorem within_find (c : Cache κ ν) (now : UInt64) (p : ν → Bool) : Within c (c.find now p).2 := by
  unfold find
  split
  · exact Within.refl c
  · exact within_refresh c _ now

theorem within_remove (c : Cache κ ν) (k : κ) : Within c (c.remove k).2 := within_filter c _

/-- What stands in a cache after a write was written or stood there. -/
theorem holds_insert [LT κ] [DecidableLT κ] {c : Cache κ ν} {k k' : κ} {v v' : ν} {now : UInt64}
    (h : (c.insert k v now).2.Holds k' v') : (k' = k ∧ v' = v) ∨ c.Holds k' v' := by
  obtain ⟨e, he, hv⟩ := h
  rcases Table.mem_put he with heq | he
  · cases heq
    exact .inl ⟨rfl, hv.symm⟩
  · exact .inr ⟨e, he, hv⟩

/-- A look-up hits what stands under its key. -/
theorem holds_of_get {c : Cache κ ν} {k : κ} {now : UInt64} {v : ν}
    (h : (c.get k now).1 = .hit v) : c.Holds k v := by
  rw [get_eq] at h
  unfold peek at h
  split at h
  · cases h
  · rename_i e hget
    split at h
    · cases h
      exact ⟨e, Table.mem_entries_of_get? hget, rfl⟩
    · cases h

/-- A search finds a value that passes its test. -/
theorem holds_of_find {c : Cache κ ν} {now : UInt64} {p : ν → Bool} {v : ν}
    (h : (c.find now p).1 = some v) : p v = true ∧ ∃ k, c.Holds k v := by
  unfold find at h
  split at h
  · cases h
  · rename_i k e hfind
    cases h
    have htest := List.find?_some hfind
    rw [Bool.and_eq_true] at htest
    exact ⟨htest.2, k, e, List.mem_of_find?_eq_some hfind, rfl⟩

/-! ### What leaves a cache -/

/-- The value under a key, live or expired. -/
def value? (c : Cache κ ν) (k : κ) : Option ν := (c.table.get? k).map Entry.value

variable {c c₁ c' : Cache κ ν} {out out' : List (κ × ν)}

theorem holds_iff [Preorder κ] (h : c.table.Ascending) (k : κ) (v : ν) :
    c.Holds k v ↔ c.value? k = some v := by
  unfold value? Holds
  rw [Option.map_eq_some_iff]
  exact exists_congr fun e => and_congr_left fun _ =>
    ⟨Table.get?_of_mem_entries h, Table.mem_entries_of_get?⟩

/-- Exactly the listed keys lose their values, which are the listed ones, and
the keys are in order. -/
structure Drops [LT κ] (c c' : Cache κ ν) (out : List (κ × ν)) : Prop where
  nodup : (out.map Prod.fst).Nodup
  held : ∀ p ∈ out, c.value? p.1 = some p.2
  value?_eq : ∀ k, c'.value? k = if k ∈ out.map Prod.fst then none else c.value? k
  ascending : c'.table.Ascending

theorem Drops.trans [LT κ] (h : Drops c c₁ out) (h' : Drops c₁ c' out') :
    Drops c c' (out ++ out') := by
  refine ⟨?_, fun p hp => ?_, fun k => ?_, h'.ascending⟩
  · rw [List.map_append, List.nodup_append]
    refine ⟨h.nodup, h'.nodup, fun k hk k' hk' heq => ?_⟩
    -- A key that has lost its value has none to lose.
    subst heq
    obtain ⟨p, hp, rfl⟩ := List.mem_map.mp hk'
    have hsome := h'.held p hp
    rw [h.value?_eq, if_pos hk] at hsome
    cases hsome
  · rcases List.mem_append.mp hp with hp | hp
    · exact h.held p hp
    · have hsome := h'.held p hp
      rw [h.value?_eq] at hsome
      split at hsome
      · cases hsome
      · exact hsome
  · rw [h'.value?_eq, h.value?_eq, List.map_append]
    by_cases hk : k ∈ out.map Prod.fst <;> by_cases hk' : k ∈ out'.map Prod.fst <;>
      simp [hk, hk']

theorem drops_of_value?_eq [LT κ] (h : ∀ k, c'.value? k = c.value? k)
    (hasc : c'.table.Ascending) : Drops c c' [] :=
  ⟨List.nodup_nil, by simp, fun k => by simpa using h k, hasc⟩

theorem Drops.refl [LT κ] (hasc : c.table.Ascending) : Drops c c [] :=
  drops_of_value?_eq (fun _ => rfl) hasc

theorem drops_refresh [LT κ] (hasc : c.table.Ascending) (k : κ) (now : UInt64) :
    Drops c (c.refresh k now) [] := by
  refine drops_of_value?_eq (fun k' => ?_) (hasc.adjust k _)
  unfold value? refresh
  rw [Table.get?_adjust]
  split
  · rw [Option.map_map]
    rfl
  · rfl

theorem value?_erase (c : Cache κ ν) (k k' : κ) :
    ({ c with table := c.table.erase k } : Cache κ ν).value? k'
      = if k' = k then none else c.value? k' := by
  unfold value?
  rw [Table.get?_erase]
  split <;> rfl

/-- An entry is erased. -/
theorem drops_erase [LT κ] (hasc : c.table.Ascending) (k : κ) :
    Drops c { c with table := c.table.erase k } ((c.value? k).toList.map fun v => (k, v)) := by
  refine ⟨?_, ?_, fun k' => ?_, hasc.erase k⟩
  · cases c.value? k <;> simp
  · cases hv : c.value? k with
    | none => simp
    | some v => simpa using hv
  · rw [value?_erase]
    cases hv : c.value? k with
    | none =>
      by_cases hk : k' = k
      · rw [if_pos hk, hk, hv]
        rfl
      · simp [hk]
    | some v => simp

/-- A look-up takes out an entry that it finds expired. -/
theorem drops_get [LT κ] (hasc : c.table.Ascending) (k : κ) (now : UInt64) :
    Drops c (c.get k now).2 (match (c.get k now).1 with
      | .expired v => [(k, v)]
      | _ => []) := by
  have herase := drops_erase hasc k
  rw [get_eq]
  unfold peek
  cases hget : c.table.get? k with
  | none => exact .refl hasc
  | some e =>
    cases hlive : e.isLive now with
    | true =>
      simp only [hlive, if_true]
      exact drops_refresh hasc k now
    | false =>
      unfold value? at herase
      rw [hget] at herase
      simp only [hlive, Bool.false_eq_true, if_false]
      exact herase

theorem drops_find [LT κ] (hasc : c.table.Ascending) (now : UInt64) (p : ν → Bool) :
    Drops c (c.find now p).2 [] := by
  unfold find
  split
  · exact .refl hasc
  · exact drops_refresh hasc _ now

theorem value?_insert [LT κ] [DecidableLT κ] (c : Cache κ ν) (k k' : κ) (v : ν) (now : UInt64) :
    (c.insert k v now).2.value? k' = if k' = k then some v else c.value? k' := by
  unfold value? insert
  rw [Table.get?_insert]
  split <;> rfl

/-! ### What a test takes out -/

/-- The keys that a test takes out are those whose entries pass it. -/
theorem mem_keysWhere_iff [Preorder κ] (hasc : c.table.Ascending) {p : Entry ν → Bool} {k : κ} :
    k ∈ c.keysWhere p ↔ ∃ e, c.table.get? k = some e ∧ p e = true := by
  unfold keysWhere
  rw [List.mem_map]
  constructor
  · rintro ⟨⟨k, e⟩, he, rfl⟩
    obtain ⟨hentry, htest⟩ := List.mem_filter.mp he
    exact ⟨e, Table.get?_of_mem_entries hasc hentry, htest⟩
  · rintro ⟨e, hentry, htest⟩
    exact ⟨(k, e), List.mem_filter.mpr ⟨Table.mem_entries_of_get? hentry, htest⟩, rfl⟩

omit [DecidableEq κ] in
theorem nodup_keysWhere [Preorder κ] (hasc : c.table.Ascending) (p : Entry ν → Bool) :
    (c.keysWhere p).Nodup := by
  have hkeys := (hasc.filter fun _ e => p e).keys
  exact hkeys.imp ne_of_lt

/-- Entries are taken out, in a cache in key order. -/
theorem drops_takeEntries [Preorder κ] (hasc : c.table.Ascending) (p : Entry ν → Bool) :
    Drops c (c.takeEntries p).2
      ((c.table.entries.filter fun e => p e.2).map fun e => (e.1, e.2.value)) := by
  have hkeys : ((c.table.entries.filter fun e => p e.2).map fun e => (e.1, e.2.value)).map Prod.fst
      = c.keysWhere p := List.map_map ..
  refine ⟨hkeys ▸ nodup_keysWhere hasc p, fun q hq => ?_, fun k => ?_, hasc.filter _⟩
  · obtain ⟨e, he, rfl⟩ := List.mem_map.mp hq
    unfold value?
    rw [Table.get?_of_mem_entries hasc (List.mem_filter.mp he).1]
    rfl
  · rw [hkeys]
    show ((c.table.filter fun _ e => !p e).get? k).map Entry.value = _
    rw [Table.get?_filter hasc]
    simp only [mem_keysWhere_iff hasc]
    unfold value?
    cases c.table.get? k with
    | none => simp
    | some e => cases htest : p e <;> simp [Option.filter, htest]

end Backplane.Access.Cache
