/-!
# `Backplane.Data.Table`: finite maps in key order

A table is a list of pairs in strictly ascending order of their keys, so
that listing it shows the order in which listeners are called, types are
named and accounts are printed. The main statements:

* `get?_insert`, `get?_erase`: what a look-up finds after a write.
* `Ascending.insert`, `Ascending.erase`: both keep the order.
-/

set_option autoImplicit false

namespace Backplane

/-- A finite map, listed in ascending order of its keys. -/
structure Table (κ ν : Type) where
  entries : List (κ × ν)
deriving Repr, DecidableEq

namespace Table

variable {κ ν : Type} [LT κ] [DecidableLT κ] [DecidableEq κ]

instance : EmptyCollection (Table κ ν) := ⟨⟨[]⟩⟩

instance : Inhabited (Table κ ν) := ⟨⟨[]⟩⟩

/-- The value under a key of an entry list. -/
def find? (k : κ) : List (κ × ν) → Option ν
  | [] => none
  | (k', v) :: rest => if k = k' then some v else find? k rest

/-- Puts a pair in front of the first larger key, in place of an entry
of the same key. -/
def put (k : κ) (v : ν) : List (κ × ν) → List (κ × ν)
  | [] => [(k, v)]
  | (k', v') :: rest =>
    if k < k' then (k, v) :: (k', v') :: rest
    else if k = k' then (k, v) :: rest
    else (k', v') :: put k v rest

/-- The value stored under `k`. -/
def get? (t : Table κ ν) (k : κ) : Option ν := find? k t.entries

/-- Stores `v` under `k`, in place of what stood there. -/
def insert (t : Table κ ν) (k : κ) (v : ν) : Table κ ν := ⟨put k v t.entries⟩

/-- Drops the entry of `k`, if there is one. -/
def erase (t : Table κ ν) (k : κ) : Table κ ν := ⟨t.entries.filter fun e => e.1 ≠ k⟩

/-- Whether `k` has an entry. -/
def contains (t : Table κ ν) (k : κ) : Bool := (t.get? k).isSome

/-- Changes the value under `k`, if there is one. -/
def adjust (t : Table κ ν) (k : κ) (f : ν → ν) : Table κ ν :=
  ⟨t.entries.map fun e => if e.1 = k then (e.1, f e.2) else e⟩

/-- Keeps the entries that pass a test. -/
def filter (t : Table κ ν) (p : κ → ν → Bool) : Table κ ν :=
  ⟨t.entries.filter fun e => p e.1 e.2⟩

/-- The keys, ascending. -/
def keys (t : Table κ ν) : List κ := t.entries.map Prod.fst

/-- The values in key order. -/
def values (t : Table κ ν) : List ν := t.entries.map Prod.snd

/-- The number of entries. -/
def size (t : Table κ ν) : Nat := t.entries.length

/-- Whether there is no entry. -/
def isEmpty (t : Table κ ν) : Bool := t.entries.isEmpty

/-- The table of a list of pairs; a later pair wins. -/
def ofList (pairs : List (κ × ν)) : Table κ ν :=
  pairs.foldl (fun t e => t.insert e.1 e.2) ∅

omit [LT κ] [DecidableLT κ] in
@[simp] theorem get?_empty (k : κ) : (∅ : Table κ ν).get? k = none := rfl

omit [LT κ] [DecidableLT κ] in
private theorem find?_filter_ne (k k' : κ) (l : List (κ × ν)) :
    find? k (l.filter fun e => e.1 ≠ k') = if k = k' then none else find? k l := by
  induction l with
  | nil => simp [find?]
  | cons e rest ih =>
    by_cases h : e.1 = k'
    · simp only [ne_eq, h, not_true_eq_false, decide_false, Bool.false_eq_true, not_false_eq_true,
        List.filter_cons_of_neg, find?]
      rw [show (rest.filter fun e => decide ¬ e.1 = k') = rest.filter fun e => e.1 ≠ k' from rfl,
        ih]
      by_cases hk : k = k' <;> simp [hk]
    · rw [List.filter_cons_of_pos (by simpa using h)]
      simp only [find?, ih]
      by_cases hk : k = k'
      · subst hk; simp [Ne.symm h]
      · simp [hk]

private theorem find?_put (k k' : κ) (v : ν) (l : List (κ × ν)) :
    find? k' (put k v l) = if k' = k then some v else find? k' l := by
  induction l with
  | nil => simp [put, find?]
  | cons e rest ih =>
    obtain ⟨k'', v''⟩ := e
    simp only [put]
    split
    · simp [find?]
    · split
      · rename_i h; subst h; by_cases hk : k' = k <;> simp [find?, hk]
      · rename_i h
        by_cases hk : k' = k
        · subst hk; simp [find?, h, ih]
        · simp [find?, hk, ih]

/-- A look-up after a write sees the write under its own key alone. -/
theorem get?_insert (t : Table κ ν) (k k' : κ) (v : ν) :
    (t.insert k v).get? k' = if k' = k then some v else t.get? k' :=
  find?_put k k' v t.entries

omit [LT κ] [DecidableLT κ] in
/-- A look-up after an erasure misses under the erased key alone. -/
theorem get?_erase (t : Table κ ν) (k k' : κ) :
    (t.erase k).get? k' = if k' = k then none else t.get? k' :=
  find?_filter_ne k' k t.entries

/-- The keys of a table ascend strictly. -/
def Ascending (t : Table κ ν) : Prop := t.entries.Pairwise fun a b => a.1 < b.1

omit [DecidableLT κ] [DecidableEq κ] in
theorem ascending_empty : (∅ : Table κ ν).Ascending := List.Pairwise.nil

omit [DecidableLT κ] in
/-- An erasure keeps the order. -/
theorem Ascending.erase {t : Table κ ν} (h : t.Ascending) (k : κ) : (t.erase k).Ascending :=
  List.Pairwise.filter _ h

/-- What is listed after a write was written or listed before. -/
theorem mem_put {k : κ} {v : ν} {e : κ × ν} {l : List (κ × ν)} (h : e ∈ put k v l) :
    e = (k, v) ∨ e ∈ l := by
  induction l with
  | nil => simpa [put] using h
  | cons e' rest ih =>
    simp only [put] at h
    split at h
    · simpa using h
    · split at h
      · rcases List.mem_cons.mp h with h | h
        · exact .inl h
        · exact .inr (List.mem_cons_of_mem _ h)
      · rcases List.mem_cons.mp h with h | h
        · exact .inr (h ▸ List.mem_cons_self)
        · exact (ih h).imp_right (List.mem_cons_of_mem _)

/-- A write keeps the order, for keys under a total order. -/
theorem Ascending.insert {t : Table κ ν} (h : t.Ascending)
    (trans : ∀ {a b c : κ}, a < b → b < c → a < c)
    (total : ∀ a b : κ, ¬ a < b → a ≠ b → b < a) (k : κ) (v : ν) :
    (t.insert k v).Ascending := by
  suffices ∀ l : List (κ × ν), (l.Pairwise fun a b => a.1 < b.1) →
      ((put k v l).Pairwise fun a b => a.1 < b.1) from this _ h
  intro l hl
  induction l with
  | nil => simp [put]
  | cons e rest ih =>
    obtain ⟨hhead, htail⟩ := List.pairwise_cons.mp hl
    simp only [put]
    split
    · rename_i hlt
      refine List.pairwise_cons.mpr ⟨fun b hb => ?_, hl⟩
      rcases List.mem_cons.mp hb with rfl | hb
      · exact hlt
      · exact trans hlt (hhead b hb)
    · split
      · rename_i heq
        exact List.pairwise_cons.mpr ⟨fun b hb => heq ▸ hhead b hb, htail⟩
      · rename_i hlt hne
        refine List.pairwise_cons.mpr ⟨fun b hb => ?_, ih htail⟩
        rcases mem_put hb with rfl | hb
        · exact total _ _ hlt hne
        · exact hhead b hb

end Table

end Backplane
