/-!
# `Backplane.Data.Roster`: finite sets in ascending order

Owners of a lock, roles and permissions are sets that are always listed
in ascending order. The main statements:

* `mem_insert`, `mem_ofList`: what belongs to a set after each operation.
-/

set_option autoImplicit false

namespace Backplane

/-- A finite set, listed in ascending order. -/
structure Roster (α : Type) where
  members : List α
deriving Repr, DecidableEq

namespace Roster

variable {α : Type} [LT α] [DecidableLT α] [DecidableEq α]

instance : EmptyCollection (Roster α) := ⟨⟨[]⟩⟩

instance : Inhabited (Roster α) := ⟨⟨[]⟩⟩

instance : Membership α (Roster α) := ⟨fun s a => a ∈ s.members⟩

instance (a : α) (s : Roster α) : Decidable (a ∈ s) :=
  inferInstanceAs (Decidable (a ∈ s.members))

/-- Puts an element in front of the first larger one. -/
def place (a : α) : List α → List α
  | [] => [a]
  | b :: rest =>
    if a < b then a :: b :: rest
    else if a = b then b :: rest
    else b :: place a rest

/-- The set with one more element. -/
def insert (s : Roster α) (a : α) : Roster α := ⟨place a s.members⟩

/-- The set without an element. -/
def erase (s : Roster α) (a : α) : Roster α := ⟨s.members.filter (· ≠ a)⟩

/-- All elements of two sets. -/
def union (s t : Roster α) : Roster α := t.members.foldl insert s

/-- The elements of one set that are not in another. -/
def diff (s t : Roster α) : Roster α := ⟨s.members.filter fun a => ¬ a ∈ t⟩

/-- The set of the elements of a list. -/
def ofList (xs : List α) : Roster α := xs.foldl insert ∅

/-- Whether the set has no element. -/
def isEmpty (s : Roster α) : Bool := s.members.isEmpty

/-- The smallest element. -/
def min? (s : Roster α) : Option α := s.members.head?

/-- Whether two sets share an element. -/
def meets (s t : Roster α) : Bool := s.members.any fun a => decide (a ∈ t)

private theorem mem_place (a b : α) (l : List α) : b ∈ place a l ↔ b = a ∨ b ∈ l := by
  induction l with
  | nil => simp [place]
  | cons c rest ih =>
    simp only [place]
    split
    · simp
    · split
      · rename_i h; subst h; simp
      · simp only [List.mem_cons, ih]; exact or_left_comm

/-- An insertion adds its element and nothing else. -/
@[simp] theorem mem_insert (s : Roster α) (a b : α) : b ∈ s.insert a ↔ b = a ∨ b ∈ s :=
  mem_place a b s.members

omit [LT α] [DecidableLT α] in
/-- An erasure drops its element and nothing else. -/
@[simp] theorem mem_erase (s : Roster α) (a b : α) : b ∈ s.erase a ↔ b ∈ s ∧ b ≠ a := by
  show b ∈ s.members.filter _ ↔ _
  simp only [List.mem_filter, decide_eq_true_eq]
  rfl

private theorem mem_foldl_insert (b : α) (xs : List α) (s : Roster α) :
    b ∈ xs.foldl insert s ↔ b ∈ xs ∨ b ∈ s := by
  induction xs generalizing s with
  | nil => simp
  | cons x rest ih =>
    simp only [List.foldl_cons, ih, mem_insert, List.mem_cons]
    exact or_left_comm.trans or_assoc.symm

/-- The union holds what either set holds. -/
@[simp] theorem mem_union (s t : Roster α) (b : α) : b ∈ s.union t ↔ b ∈ s ∨ b ∈ t :=
  (mem_foldl_insert b t.members s).trans or_comm

/-- The set of a list holds the elements of the list. -/
@[simp] theorem mem_ofList (xs : List α) (b : α) : b ∈ ofList xs ↔ b ∈ xs :=
  (mem_foldl_insert b xs ∅).trans (or_iff_left (List.not_mem_nil))

end Roster

end Backplane
