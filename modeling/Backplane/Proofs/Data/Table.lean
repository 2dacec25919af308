import Backplane.Data.Table
import Mathlib.Order.Basic
import Mathlib.Order.Defs.LinearOrder
import Mathlib.Order.Lattice

/-!
# `Backplane.Proofs.Data.Table`: look-ups after the other writes

`Backplane.Data.Table` says what a look-up finds after `insert` and
`erase`. The theorems here do the same for the writes that touch many
entries at once, and pass between a look-up and the list of entries:

* `get?_filter`: the entry of a key survives a filter if it passes the
  test. This one needs the keys in order, because a list with a repeated
  key could show a later entry once the first one is gone.
* `get?_mapValues`, `get?_adjust`: changing every value, or that of one key,
  changes what a look-up finds.
* `mem_entries_of_get?`, `mem_values_of_get?`: what a look-up finds is
  listed.
* `get?_of_mem_entries`: what is listed is found, in a table in key order.
* `mem_keys_iff`: the keys of a table in key order are those under which
  something is found.
* `insert_get?`, `erase_of_get?_eq_none`: writing what is there already, or
  dropping what is not there, changes nothing.
* `perm_values_insert`: a write under a new key lists one value more.
* `perm_entries_erase`, `perm_entries_insert`: the entries of a table besides
  that of one key, which may be there and may be written.
* `ext_get?`: tables in key order in which every look-up finds the same are
  the same.
* `keys_insert_congr`: which keys there are after a write does not depend on
  the values.
-/

set_option autoImplicit false

namespace Backplane.Table

variable {κ ν : Type} [DecidableEq κ]

/-- What is found under a key stands in the list under that key. -/
theorem mem_of_find? {k : κ} {v : ν} {l : List (κ × ν)} (h : find? k l = some v) :
    (k, v) ∈ l := by
  induction l with
  | nil => cases h
  | cons e rest ih =>
    simp only [find?] at h
    split at h
    · rename_i hk
      cases h
      rw [hk]
      exact List.mem_cons_self
    · exact List.mem_cons_of_mem _ (ih h)

/-- A look-up finds entries only. -/
theorem mem_entries_of_get? {t : Table κ ν} {k : κ} {v : ν} (h : t.get? k = some v) :
    (k, v) ∈ t.entries :=
  mem_of_find? h

/-- A look-up finds values only. -/
theorem mem_values_of_get? {t : Table κ ν} {k : κ} {v : ν} (h : t.get? k = some v) :
    v ∈ t.values :=
  List.mem_map.mpr ⟨(k, v), mem_entries_of_get? h, rfl⟩

/-- A key without an entry is found nowhere. -/
theorem find?_eq_none {k : κ} {l : List (κ × ν)} (h : ∀ e ∈ l, e.1 ≠ k) : find? k l = none := by
  cases hf : find? k l with
  | none => rfl
  | some v => exact absurd rfl (h _ (mem_of_find? hf))

/-- In a table in key order, a look-up finds every entry. -/
theorem get?_of_mem_entries [Preorder κ] {t : Table κ ν} (h : t.Ascending) {k : κ} {v : ν}
    (hmem : (k, v) ∈ t.entries) : t.get? k = some v := by
  obtain ⟨l⟩ := t
  show find? k l = some v
  replace h : l.Pairwise fun a b => a.1 < b.1 := h
  replace hmem : (k, v) ∈ l := hmem
  induction l with
  | nil => cases hmem
  | cons e rest ih =>
    obtain ⟨hhead, htail⟩ := List.pairwise_cons.mp h
    simp only [find?]
    rcases List.mem_cons.mp hmem with rfl | hmem
    · rw [if_pos rfl]
    · -- A later entry has a larger key.
      have hlt : e.1 < k := hhead _ hmem
      rw [if_neg (ne_of_gt hlt), ih htail hmem]

/-- The keys of a table in key order are those under which something is found. -/
theorem mem_keys_iff [Preorder κ] {t : Table κ ν} (h : t.Ascending) {k : κ} :
    k ∈ t.keys ↔ ∃ v, t.get? k = some v := by
  constructor
  · intro hk
    obtain ⟨⟨k', v⟩, hmem, rfl⟩ := List.mem_map.mp hk
    exact ⟨v, get?_of_mem_entries h hmem⟩
  · rintro ⟨v, hv⟩
    exact List.mem_map.mpr ⟨(k, v), mem_entries_of_get? hv, rfl⟩

omit [DecidableEq κ] in
/-- A table in key order lists its keys in that order. -/
theorem Ascending.keys [LT κ] {t : Table κ ν} (h : t.Ascending) : t.keys.Pairwise (· < ·) :=
  List.pairwise_map.mpr h

/-- A look-up after every value was changed. -/
theorem get?_mapValues (t : Table κ ν) (f : ν → ν) (k : κ) :
    (⟨t.entries.map fun e => (e.1, f e.2)⟩ : Table κ ν).get? k = (t.get? k).map f := by
  show find? k (t.entries.map fun e => (e.1, f e.2)) = (find? k t.entries).map f
  induction t.entries with
  | nil => rfl
  | cons e rest ih =>
    simp only [List.map_cons, find?, ih]
    split <;> rfl

/-- A look-up after a filter, in a table in key order. -/
theorem get?_filter [Preorder κ] {t : Table κ ν} (h : t.Ascending) (p : κ → ν → Bool) (k : κ) :
    (t.filter p).get? k = (t.get? k).filter (p k) := by
  obtain ⟨l⟩ := t
  show find? k (l.filter fun e => p e.1 e.2) = (find? k l).filter (p k)
  replace h : l.Pairwise fun a b => a.1 < b.1 := h
  induction l with
  | nil => rfl
  | cons e rest ih =>
    obtain ⟨hhead, htail⟩ := List.pairwise_cons.mp h
    by_cases hk : k = e.1
    · subst hk
      -- No later entry has this key, so none takes the place of a dropped one.
      have hrest : find? e.1 (rest.filter fun e => p e.1 e.2) = none := by
        refine find?_eq_none fun e' he' heq => ?_
        have hlt := hhead e' (List.mem_filter.mp he').1
        exact lt_irrefl _ (heq ▸ hlt)
      cases hp : p e.1 e.2 with
      | true => simp [find?, hp, Option.filter]
      | false => simp [find?, hp, hrest, Option.filter]
    · cases hp : p e.1 e.2 with
      | true => simp [find?, hp, hk, ih htail]
      | false => simp [find?, hp, hk, ih htail]

omit [DecidableEq κ] in
/-- A filter keeps the order. -/
theorem Ascending.filter [LT κ] {t : Table κ ν} (h : t.Ascending) (p : κ → ν → Bool) :
    (t.filter p).Ascending :=
  List.Pairwise.filter _ h

omit [DecidableEq κ] in
/-- Changing every value keeps the order. -/
theorem Ascending.mapValues [LT κ] {t : Table κ ν} (h : t.Ascending) (f : ν → ν) :
    (⟨t.entries.map fun e => (e.1, f e.2)⟩ : Table κ ν).Ascending :=
  List.pairwise_map.mpr h

/-- A look-up after the value of one key was changed. -/
theorem get?_adjust (t : Table κ ν) (k k' : κ) (f : ν → ν) :
    (t.adjust k f).get? k' = if k' = k then (t.get? k').map f else t.get? k' := by
  show find? k' (t.entries.map fun e => if e.1 = k then (e.1, f e.2) else e) = _
  unfold get?
  induction t.entries with
  | nil => simp [find?]
  | cons e rest ih =>
    by_cases he : k' = e.1
    · subst he
      by_cases hk : e.1 = k <;> simp [find?, hk]
    · have hkey : (if e.1 = k then (e.1, f e.2) else e).1 = e.1 := by split <;> rfl
      simp only [List.map_cons, find?, hkey, if_neg he, ih]

/-- Changing the value of one key keeps the order. -/
theorem Ascending.adjust [LT κ] {t : Table κ ν} (h : t.Ascending) (k : κ) (f : ν → ν) :
    (t.adjust k f).Ascending := by
  refine List.pairwise_map.mpr (h.imp fun {a b} hlt => ?_)
  have hkey : ∀ e : κ × ν, (if e.1 = k then (e.1, f e.2) else e).1 = e.1 := fun e => by
    split <;> rfl
  rw [hkey, hkey]
  exact hlt

/-- Writing what is there already changes nothing. -/
theorem insert_get? [Preorder κ] [DecidableLT κ] {t : Table κ ν} (h : t.Ascending) {k : κ} {v : ν}
    (hk : t.get? k = some v) : t.insert k v = t := by
  obtain ⟨l⟩ := t
  show (⟨put k v l⟩ : Table κ ν) = ⟨l⟩
  congr 1
  replace h : l.Pairwise fun a b => a.1 < b.1 := h
  replace hk : find? k l = some v := hk
  induction l with
  | nil => cases hk
  | cons e rest ih =>
    obtain ⟨k', v'⟩ := e
    obtain ⟨hhead, htail⟩ := List.pairwise_cons.mp h
    simp only [find?] at hk
    simp only [put]
    split at hk
    · rename_i heq
      subst heq
      cases hk
      rw [if_neg (lt_irrefl k), if_pos rfl]
    · rename_i hne
      -- The entry stands further back, so its key is the larger one.
      have hlt : k' < k := hhead _ (mem_of_find? hk)
      rw [if_neg (lt_asymm hlt), if_neg hne, ih htail hk]

/-- Two tables in key order are the same if every look-up finds the same. -/
theorem ext_get? {κ ν : Type} [LinearOrder κ] {t t' : Table κ ν} (h : t.Ascending)
    (h' : t'.Ascending) (heq : ∀ k, t.get? k = t'.get? k) : t = t' := by
  obtain ⟨l⟩ := t
  obtain ⟨l'⟩ := t'
  congr 1
  replace h : l.Pairwise fun a b => a.1 < b.1 := h
  replace h' : l'.Pairwise fun a b => a.1 < b.1 := h'
  -- In key order no entry stands twice, so the same entries make the same list.
  have hmem : ∀ {l l' : List (κ × ν)}, l.Pairwise (fun a b => a.1 < b.1) →
      (∀ k, (⟨l⟩ : Table κ ν).get? k = (⟨l'⟩ : Table κ ν).get? k) → l ⊆ l' := by
    rintro l l' hl hsame ⟨k, v⟩ hkv
    have hfound : (⟨l⟩ : Table κ ν).get? k = some v := get?_of_mem_entries hl hkv
    rw [hsame k] at hfound
    exact mem_entries_of_get? hfound
  have hnodup : ∀ {l : List (κ × ν)}, l.Pairwise (fun a b => a.1 < b.1) → l.Nodup := by
    intro l hl
    refine List.Pairwise.imp ?_ hl
    intro a b hlt heq
    subst heq
    exact lt_irrefl _ hlt
  have hperm : l.Perm l' := (List.perm_ext_iff_of_nodup (hnodup h) (hnodup h')).mpr fun e =>
    ⟨fun he => hmem h heq he, fun he => hmem h' (fun k => (heq k).symm) he⟩
  exact hperm.eq_of_pairwise (fun a b _ _ hab hba => absurd hba (lt_asymm hab)) h h'

/-- Dropping a key that has no entry changes nothing. -/
theorem erase_of_get?_eq_none {κ ν : Type} [LinearOrder κ] {t : Table κ ν} (h : t.Ascending)
    {k : κ} (hk : t.get? k = none) : t.erase k = t := by
  refine ext_get? (h.erase k) h fun k' => ?_
  rw [get?_erase]
  split
  · rename_i heq
    rw [heq, hk]
  · rfl

omit [DecidableEq κ] in
/-- Which keys there are after a write does not depend on the values. -/
theorem keys_insert_congr [LT κ] [DecidableLT κ] [DecidableEq κ] {t t' : Table κ ν}
    (h : t.keys = t'.keys) (k : κ) (v v' : ν) : (t.insert k v).keys = (t'.insert k v').keys := by
  obtain ⟨l⟩ := t
  obtain ⟨l'⟩ := t'
  replace h : l.map Prod.fst = l'.map Prod.fst := h
  show (put k v l).map Prod.fst = (put k v' l').map Prod.fst
  induction l generalizing l' with
  | nil =>
    rw [List.map_nil, eq_comm, List.map_eq_nil_iff] at h
    rw [h]
    rfl
  | cons e rest ih =>
    cases l' with
    | nil => cases h
    | cons e' rest' =>
      obtain ⟨k₁, v₁⟩ := e
      obtain ⟨k₁', v₁'⟩ := e'
      obtain ⟨rfl, hrest⟩ := List.cons.inj h
      simp only [put]
      split
      · simp only [List.map_cons, hrest]
      · split
        · simp only [List.map_cons, hrest]
        · simp only [List.map_cons, ih rest' hrest]

/-- A write under a new key lists its pair besides the others. -/
theorem perm_put [LT κ] [DecidableLT κ] {k : κ} {l : List (κ × ν)} (h : find? k l = none) (v : ν) :
    (put k v l).Perm ((k, v) :: l) := by
  induction l with
  | nil => exact .refl _
  | cons e rest ih =>
    simp only [find?] at h
    split at h
    · cases h
    · rename_i hne
      simp only [put]
      rw [if_neg hne]
      split
      · exact .refl _
      · exact ((ih h).cons e).trans (.swap _ _ _)

/-- A write under a new key lists its value besides the others. -/
theorem perm_values_insert [LT κ] [DecidableLT κ] {t : Table κ ν} {k : κ} (h : t.get? k = none)
    (v : ν) : (t.insert k v).values.Perm (v :: t.values) :=
  (perm_put h v).map Prod.snd

/-- In a table in key order, a key has the one entry that a look-up finds. -/
theorem filter_entries_key [Preorder κ] {t : Table κ ν} (h : t.Ascending) (k : κ) :
    (t.entries.filter fun e => e.1 = k) = (t.get? k).toList.map fun v => (k, v) := by
  obtain ⟨l⟩ := t
  show (l.filter fun e => e.1 = k) = (find? k l).toList.map fun v => (k, v)
  replace h : l.Pairwise fun a b => a.1 < b.1 := h
  induction l with
  | nil => rfl
  | cons e rest ih =>
    obtain ⟨k', v⟩ := e
    obtain ⟨hhead, htail⟩ := List.pairwise_cons.mp h
    by_cases hk : k' = k
    · subst hk
      -- All later keys are larger.
      have hrest : (rest.filter fun e => e.1 = k') = [] :=
        List.filter_eq_nil_iff.mpr fun e he => by simpa using ne_of_gt (hhead e he)
      simp [find?, hrest]
    · simp [find?, hk, Ne.symm hk, ih htail]

/-- The entries of a table are that of a key and those that are left without it. -/
theorem perm_entries_erase [Preorder κ] {t : Table κ ν} (h : t.Ascending) (k : κ) :
    t.entries.Perm (((t.get? k).toList.map fun v => (k, v)) ++ (t.erase k).entries) := by
  rw [← filter_entries_key h]
  have hsplit := List.filter_append_perm (fun e : κ × ν => decide (e.1 = k)) t.entries
  simp only [← decide_not] at hsplit
  exact hsplit.symm

/-- A write keeps the order of a linear order's keys. -/
theorem ascending_insert {κ ν : Type} [LinearOrder κ] {t : Table κ ν} (h : t.Ascending) (k : κ)
    (v : ν) : (t.insert k v).Ascending :=
  h.insert lt_trans (fun _ _ hlt hne => lt_of_le_of_ne (not_lt.mp hlt) (Ne.symm hne)) k v

/-- A write lists its pair besides the entries of the other keys. -/
theorem perm_entries_insert {κ ν : Type} [LinearOrder κ] {t : Table κ ν} (h : t.Ascending) (k : κ)
    (v : ν) : (t.insert k v).entries.Perm ((k, v) :: (t.erase k).entries) := by
  have hsame : t.insert k v = (t.erase k).insert k v := by
    refine ext_get? (ascending_insert h k v) (ascending_insert (h.erase k) k v) fun k' => ?_
    rw [get?_insert, get?_insert, get?_erase]
    split <;> rfl
  have hgone : (t.erase k).get? k = none := by rw [get?_erase, if_pos rfl]
  rw [hsame]
  exact perm_put hgone v

end Backplane.Table
