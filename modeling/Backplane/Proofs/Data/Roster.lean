import Backplane.Data.Roster
import Mathlib.Order.Basic
import Mathlib.Order.Defs.LinearOrder
import Mathlib.Order.Lattice

/-!
# `Backplane.Proofs.Data.Roster`: rosters in order, and their sizes

A roster that was built by its own operations lists its elements in
strictly ascending order, so the length of the list is the number of
elements. The main statements:

* `ascending_ofList`, `Ascending.insert`, `Ascending.union`,
  `Ascending.erase`, `Ascending.diff`: the operations keep the order.
* `ext_mem`, `ofList_members`: a roster in order is given by its elements.
* `erase_insert`: taking out what was put in.
* `length_insert`, `length_erase`, `length_le_erase`: one element more, one
  element less.
-/

set_option autoImplicit false

namespace Backplane.Roster

/-- The elements are listed in strictly ascending order. -/
def Ascending {α : Type} [LT α] (s : Roster α) : Prop := s.members.Pairwise (· < ·)

variable {α : Type} [LinearOrder α]

/-- No element is listed twice. -/
theorem Ascending.nodup {s : Roster α} (h : s.Ascending) : s.members.Nodup :=
  h.imp fun hlt => ne_of_lt hlt

theorem ascending_empty : (∅ : Roster α).Ascending := List.Pairwise.nil

/-- Placing an element adds it and nothing else. -/
private theorem mem_of_mem_place {a b : α} {l : List α} (h : b ∈ place a l) : b = a ∨ b ∈ l :=
  (mem_insert ⟨l⟩ a b).mp h

/-- An insertion keeps the order. -/
theorem Ascending.insert {s : Roster α} (h : s.Ascending) (a : α) : (s.insert a).Ascending := by
  obtain ⟨l⟩ := s
  replace h : l.Pairwise (· < ·) := h
  show (place a l).Pairwise (· < ·)
  induction l with
  | nil => exact List.pairwise_singleton _ _
  | cons b rest ih =>
    obtain ⟨hhead, htail⟩ := List.pairwise_cons.mp h
    simp only [place]
    split
    · rename_i hlt
      refine List.pairwise_cons.mpr ⟨fun c hc => ?_, h⟩
      rcases List.mem_cons.mp hc with rfl | hc
      · exact hlt
      · exact hlt.trans (hhead c hc)
    · split
      · exact h
      · rename_i hlt hne
        refine List.pairwise_cons.mpr ⟨fun c hc => ?_, ih htail⟩
        rcases mem_of_mem_place hc with rfl | hc
        · exact lt_of_le_of_ne (not_lt.mp hlt) (Ne.symm hne)
        · exact hhead c hc

private theorem ascending_foldl_insert (xs : List α) {s : Roster α} (h : s.Ascending) :
    (xs.foldl Roster.insert s).Ascending := by
  induction xs generalizing s with
  | nil => exact h
  | cons x rest ih => exact ih (h.insert x)

/-- The set of a list is in order. -/
theorem ascending_ofList (xs : List α) : (ofList xs).Ascending :=
  ascending_foldl_insert xs ascending_empty

/-- Rosters in order with the same elements are the same. -/
theorem ext_mem {s t : Roster α} (hs : s.Ascending) (ht : t.Ascending)
    (h : ∀ a, a ∈ s ↔ a ∈ t) : s = t := by
  have hperm : s.members.Perm t.members := (List.perm_ext_iff_of_nodup hs.nodup ht.nodup).mpr h
  obtain ⟨l⟩ := s
  congr 1
  exact hperm.eq_of_pairwise (fun a b _ _ hab hba => absurd hba (lt_asymm hab)) hs ht

/-- The set of the elements of a roster in order is the roster. -/
theorem ofList_members {s : Roster α} (h : s.Ascending) : ofList s.members = s :=
  ext_mem (ascending_ofList _) h fun a => mem_ofList s.members a

/-- A union keeps the order. -/
theorem Ascending.union {s : Roster α} (h : s.Ascending) (t : Roster α) : (s.union t).Ascending :=
  ascending_foldl_insert t.members h

/-- An erasure keeps the order. -/
theorem Ascending.erase {s : Roster α} (h : s.Ascending) (a : α) : (s.erase a).Ascending :=
  List.Pairwise.filter _ h

/-- A difference keeps the order. -/
theorem Ascending.diff {s : Roster α} (h : s.Ascending) (t : Roster α) : (s.diff t).Ascending :=
  List.Pairwise.filter _ h

/-- The difference holds what the first set alone holds. -/
@[simp] theorem mem_diff (s t : Roster α) (a : α) : a ∈ s.diff t ↔ a ∈ s ∧ a ∉ t := by
  show a ∈ s.members.filter _ ↔ _
  simp only [List.mem_filter, decide_eq_true_eq]
  rfl

/-- A new element that is taken out again leaves the set as it was. -/
theorem erase_insert {s : Roster α} {a : α} (h : a ∉ s) : (s.insert a).erase a = s := by
  obtain ⟨l⟩ := s
  show (⟨(place a l).filter (· ≠ a)⟩ : Roster α) = ⟨l⟩
  replace h : a ∉ l := h
  congr 1
  induction l with
  | nil => simp [place]
  | cons b rest ih =>
    have hne : a ≠ b := fun heq => h (heq ▸ List.mem_cons_self)
    have hrest : a ∉ rest := fun hmem => h (List.mem_cons_of_mem b hmem)
    simp only [place]
    split
    · rw [List.filter_cons_of_neg (by simp)]
      exact List.filter_eq_self.mpr fun c hc => decide_eq_true fun heq => h (heq ▸ hc)
    · rw [List.filter_cons_of_pos (by simpa using hne.symm), ih hrest]

/-- A new element makes the set larger by one. -/
theorem length_insert {s : Roster α} {a : α} (h : a ∉ s) :
    (s.insert a).members.length = s.members.length + 1 := by
  obtain ⟨l⟩ := s
  show (place a l).length = l.length + 1
  replace h : a ∉ l := h
  induction l with
  | nil => rfl
  | cons b rest ih =>
    rw [List.mem_cons, not_or] at h
    simp only [place]
    split
    · rfl
    · rw [if_neg h.1, List.length_cons, ih h.2, List.length_cons]

/-- An element that goes makes the set smaller by one. -/
theorem length_erase {s : Roster α} (hs : s.Ascending) {a : α} (h : a ∈ s) :
    (s.erase a).members.length + 1 = s.members.length := by
  have heq : (s.erase a).members = s.members.erase a :=
    (hs.nodup.erase_eq_filter a).symm ▸ List.filter_congr fun b _ => by simp [bne, beq_eq_decide]
  rw [heq, List.length_erase_of_mem h]
  exact Nat.sub_add_cancel (List.length_pos_of_mem h)

/-- An element that goes makes the set smaller by at most one. -/
theorem length_le_erase {s : Roster α} (hs : s.Ascending) (a : α) :
    s.members.length ≤ (s.erase a).members.length + 1 := by
  by_cases h : a ∈ s
  · exact Nat.le_of_eq (length_erase hs h).symm
  · have hsame : (s.erase a).members = s.members :=
      List.filter_eq_self.mpr fun b hb => decide_eq_true fun heq => h (heq ▸ hb)
    rw [hsame]
    exact Nat.le_succ _

/-- The set of one element. -/
@[simp] theorem members_ofList_singleton (a : α) : (ofList [a]).members = [a] := rfl

omit [LinearOrder α] in
/-- A set without elements is the empty one. -/
theorem isEmpty_iff (s : Roster α) : s.isEmpty = true ↔ s.members = [] := List.isEmpty_iff

/-- Two sets meet if they share an element. -/
theorem meets_iff (s t : Roster α) : s.meets t = true ↔ ∃ a ∈ s.members, a ∈ t := by
  simp [meets]

end Backplane.Roster
