/-!
# `Backplane.Text.Split`: texts cut at a separator

The main statements:

* `intercalate_split`: the parts, joined by the separator, are the text.
* `splitFirst_eq_some`: the first cut is where the separator first stands.
-/

set_option autoImplicit false

namespace Backplane.Text

/-- Cuts at every separator: `n` separators give `n + 1` parts. -/
def split (sep : Char) : List Char → List (List Char)
  | [] => [[]]
  | c :: rest =>
    if c = sep then [] :: split sep rest
    else match split sep rest with
      | [] => [[c]]
      | part :: parts => (c :: part) :: parts

/-- The text in front of the first separator and the text behind it. -/
def splitFirst (sep : Char) : List Char → Option (List Char × List Char)
  | [] => none
  | c :: rest =>
    if c = sep then some ([], rest)
    else (splitFirst sep rest).map fun (before, after) => (c :: before, after)

/-- Cuts at the first `n` separators, so that there are at most `n + 1`
parts and the last one may hold separators. -/
def splitUpTo (sep : Char) : Nat → List Char → List (List Char)
  | 0, cs => [cs]
  | n + 1, cs =>
    match splitFirst sep cs with
    | none => [cs]
    | some (before, after) => before :: splitUpTo sep n after

theorem split_ne_nil (sep : Char) (cs : List Char) : split sep cs ≠ [] := by
  cases cs with
  | nil => simp [split]
  | cons c rest => simp only [split]; split <;> (try split) <;> simp

/-- Cutting loses nothing but the separators. -/
theorem intercalate_split (sep : Char) (cs : List Char) :
    [sep].intercalate (split sep cs) = cs := by
  induction cs with
  | nil => simp [split, List.intercalate]
  | cons c rest ih =>
    simp only [split]
    split
    · rename_i h
      subst h
      match hs : split c rest with
      | [] => exact absurd hs (split_ne_nil _ _)
      | p :: ps => rw [hs] at ih; simp_all [List.intercalate]
    · match hs : split sep rest with
      | [] => exact absurd hs (split_ne_nil _ _)
      | p :: ps =>
        rw [hs] at ih
        cases ps <;> simp_all [List.intercalate]

/-- A cut is made exactly at the first separator. -/
theorem splitFirst_eq_some {sep : Char} {cs before after : List Char} :
    splitFirst sep cs = some (before, after)
      ↔ cs = before ++ sep :: after ∧ sep ∉ before := by
  induction cs generalizing before with
  | nil => simp [splitFirst]
  | cons c rest ih =>
    simp only [splitFirst]
    split
    · rename_i h
      subst h
      cases before with
      | nil => simp [eq_comm]
      | cons b bs => simp; rintro rfl _ h; exact absurd rfl h
    · rename_i h
      cases before with
      | nil => simp [h]
      | cons b bs =>
        have h' : ¬ sep = c := fun e => h e.symm
        simp only [Option.map_eq_some_iff, Prod.exists, Prod.mk.injEq, List.cons.injEq,
          List.cons_append, List.mem_cons, not_or]
        constructor
        · rintro ⟨x, y, hxy, ⟨rfl, rfl⟩, rfl⟩
          obtain ⟨rfl, hn⟩ := ih.mp hxy
          exact ⟨⟨rfl, rfl⟩, h', hn⟩
        · rintro ⟨⟨rfl, rfl⟩, _, hn⟩
          exact ⟨bs, after, ih.mpr ⟨rfl, hn⟩, ⟨rfl, rfl⟩, rfl⟩

/-- There is no cut exactly where there is no separator. -/
theorem splitFirst_eq_none {sep : Char} {cs : List Char} :
    splitFirst sep cs = none ↔ sep ∉ cs := by
  induction cs with
  | nil => simp [splitFirst]
  | cons c rest ih =>
    simp only [splitFirst]
    split
    · rename_i h; simp [h]
    · rename_i h
      simp [ih, show ¬ sep = c from fun e => h e.symm]

end Backplane.Text
