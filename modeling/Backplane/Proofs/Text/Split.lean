import Backplane.Text.Blank
import Backplane.Text.Split
import Mathlib.Data.List.Basic
import Mathlib.Data.List.TakeWhile

/-!
# `Backplane.Proofs.Text.Split`: cuts of texts that were joined

`Backplane.Text.Split` says that cutting loses nothing. The theorems here go
the other way: a text that was put together from parts is cut into these
parts again. The main statements:

* `split_append`, `split_intercalate`: parts with separators between them,
  cut at every separator.
* `mem_of_mem_intercalate`, `getLast?_intercalate`: what such a text holds,
  and how it ends.
* `splitUpTo_cons`, `splitUpTo_of_not_mem`: the same for a limited number of
  cuts.
* `filterMap_split_append`, `filterMap_split_padded`: what this means for a
  list of entries that are read one by one, with blanks around them. No entry
  depends on what stands next to it.
* `takeWhile_append`, `dropWhile_append`: a piece at the front of a text that
  does not go on with another symbol of its kind.
-/

set_option autoImplicit false

namespace Backplane.Text

variable {sep : Char}

/-! ### Every separator -/

/-- The cut is that of the library. -/
theorem split_eq_splitOn (sep : Char) (cs : List Char) : split sep cs = cs.splitOn sep := by
  induction cs with
  | nil => rfl
  | cons c rest ih =>
    rw [split, ih, List.splitOn_cons_eq_if_modifyHead]
    by_cases h : c = sep
    · simp [h]
    · cases hrest : rest.splitOn sep with
      | nil => exact absurd (ih.trans hrest) (split_ne_nil sep rest)
      | cons part parts => simp [h]

/-- Two texts with a separator between them are cut one after the other. -/
theorem split_append (sep : Char) (xs ys : List Char) :
    split sep (xs ++ sep :: ys) = split sep xs ++ split sep ys := by
  simp only [split_eq_splitOn, List.splitOn_eq_splitOnP]
  exact List.splitOnP_append_cons xs ys (beq_self_eq_true sep)

/-- Parts without the separator, joined by it, are cut into the parts. -/
theorem split_intercalate {parts : List (List Char)} (hne : parts ≠ [])
    (hparts : ∀ part ∈ parts, sep ∉ part) : split sep ([sep].intercalate parts) = parts := by
  rw [split_eq_splitOn, List.splitOn_intercalate sep hparts hne]

/-- A text without the separator is one part. -/
theorem split_of_not_mem {cs : List Char} (h : sep ∉ cs) : split sep cs = [cs] := by
  have hparts : ∀ part ∈ [cs], sep ∉ part := by simpa using h
  simpa [List.intercalate_singleton] using split_intercalate (List.cons_ne_nil cs []) hparts

/-- The text has the characters of the parts, and separators. -/
theorem mem_of_mem_intercalate {c : Char} {parts : List (List Char)}
    (h : c ∈ [sep].intercalate parts) : c = sep ∨ ∃ part ∈ parts, c ∈ part := by
  induction parts with
  | nil => exact absurd h List.not_mem_nil
  | cons part rest ih =>
    cases rest with
    | nil => exact .inr ⟨part, List.mem_cons_self, by rwa [List.intercalate_singleton] at h⟩
    | cons next rest =>
      rw [List.intercalate_cons_cons, List.mem_append, List.mem_append, List.mem_singleton] at h
      rcases h with (hpart | hsep) | hrest
      · exact .inr ⟨part, List.mem_cons_self, hpart⟩
      · exact .inl hsep
      · exact (ih hrest).imp_right fun ⟨p, hp, hc⟩ => ⟨p, List.mem_cons_of_mem _ hp, hc⟩

/-- The text ends as its last part does. -/
theorem getLast?_intercalate {last : List Char} {parts : List (List Char)}
    (h : parts.getLast? = some last) (hne : last ≠ []) :
    ([sep].intercalate parts).getLast? = last.getLast? := by
  induction parts with
  | nil => cases h
  | cons part rest ih =>
    cases rest with
    | nil =>
      rw [List.getLast?_singleton, Option.some_inj] at h
      rw [h, List.intercalate_singleton]
    | cons next rest =>
      rw [List.getLast?_cons_cons] at h
      rw [List.intercalate_cons_cons, List.getLast?_append, ih h,
        List.getLast?_eq_some_getLast hne, Option.some_or]

/-! ### A limited number of cuts -/

/-- A part without the separator is cut off in front of it. -/
theorem splitUpTo_cons {part : List Char} (h : sep ∉ part) (n : Nat) (rest : List Char) :
    splitUpTo sep (n + 1) (part ++ sep :: rest) = part :: splitUpTo sep n rest := by
  have hfirst : splitFirst sep (part ++ sep :: rest) = some (part, rest) :=
    splitFirst_eq_some.mpr ⟨rfl, h⟩
  rw [splitUpTo, hfirst]

/-- A text without the separator is not cut. -/
theorem splitUpTo_of_not_mem {cs : List Char} (h : sep ∉ cs) (n : Nat) :
    splitUpTo sep n cs = [cs] := by
  cases n with
  | zero => rfl
  | succ n => rw [splitUpTo, splitFirst_eq_none.mpr h]

/-! ### Lists of entries -/

section Entries

variable {α : Type} (read? : List Char → Option α)

/-- Two lists of entries with a separator between them are read one after
the other, whatever they hold. -/
theorem filterMap_split_append (sep : Char) (xs ys : List Char) :
    (split sep (xs ++ sep :: ys)).filterMap read?
      = (split sep xs).filterMap read? ++ (split sep ys).filterMap read? := by
  rw [split_append, List.filterMap_append]

/-- Entries without the separator, joined by it, are read one by one. Without
any entries the text is empty, and should be no entry either. -/
theorem filterMap_split_intercalate {entries : List (List Char × α)} (hnil : read? [] = none)
    (hsep : ∀ e ∈ entries, sep ∉ e.1) (hread : ∀ e ∈ entries, read? e.1 = some e.2) :
    (split sep ([sep].intercalate (entries.map Prod.fst))).filterMap read?
      = entries.map Prod.snd := by
  have hall : (entries.map Prod.fst).filterMap read? = entries.map Prod.snd := by
    rw [List.filterMap_map, ← List.filterMap_eq_map]
    exact List.filterMap_congr hread
  have hparts : ∀ part ∈ entries.map Prod.fst, sep ∉ part := List.forall_mem_map.mpr hsep
  by_cases hempty : entries = []
  · simp [hempty, split, hnil, List.intercalate]
  · rw [split_intercalate (List.map_eq_nil_iff.not.mpr hempty) hparts, hall]

/-- An entry that is read as a value once the blanks around it are dropped, in
a list with the separator `sep`: `pre` and `post` are these blanks. -/
structure Reads (sep : Char) (pre body post : List Char) (a : α) : Prop where
  pre_blank : ∀ c ∈ pre, isBlank c = true
  post_blank : ∀ c ∈ post, isBlank c = true
  sep_not_mem : sep ∉ body
  head_not_blank : ∀ c ∈ body.head?, isBlank c = false
  last_not_blank : ∀ c ∈ body.getLast?, isBlank c = false
  read_eq : read? body = some a

/-- Entries with blanks around them are read one by one. -/
theorem filterMap_split_padded (sep : Char) {ι : Type} {entries : List ι} {pre body post : ι → List Char}
    {value : ι → α} (hsep : isBlank sep = false) (hnil : read? [] = none)
    (h : ∀ e ∈ entries, Reads read? sep (pre e) (body e) (post e) (value e)) :
    (split sep ([sep].intercalate (entries.map fun e => pre e ++ body e ++ post e))).filterMap
        (fun part => read? (trimChars part)) = entries.map value := by
  let parts : List (List Char × α) := entries.map fun e => (pre e ++ body e ++ post e, value e)
  -- No blank is the separator.
  have hblank : ∀ cs : List Char, (∀ c ∈ cs, isBlank c = true) → sep ∉ cs := by
    intro cs hcs hmem
    simpa [hsep] using hcs sep hmem
  have hplain : ∀ p ∈ parts, sep ∉ p.1 := by
    refine List.forall_mem_map.mpr fun e he => ?_
    simp [hblank _ (h e he).pre_blank, hblank _ (h e he).post_blank, (h e he).sep_not_mem]
  have hread : ∀ p ∈ parts, read? (trimChars p.1) = some p.2 := by
    refine List.forall_mem_map.mpr fun e he => ?_
    have hentry := h e he
    rw [trimChars_eq hentry.pre_blank hentry.head_not_blank hentry.last_not_blank
      hentry.post_blank, hentry.read_eq]
  have hall := filterMap_split_intercalate (fun part => read? (trimChars part)) hnil hplain hread
  rwa [List.map_map, List.map_map] at hall

end Entries

/-! ### The front of a text -/

section Front

variable {α : Type} {p : α → Bool} {front rest : List α}

/-- A text that does not go on with a symbol of a class. -/
def Ends (p : α → Bool) (rest : List α) : Prop := ∀ c ∈ rest.head?, p c = false

theorem takeWhile_append (hfront : ∀ c ∈ front, p c = true) (hrest : Ends p rest) :
    (front ++ rest).takeWhile p = front := by
  rw [List.takeWhile_append_of_pos hfront]
  cases rest with
  | nil => simp
  | cons c rest => simp [hrest c rfl]

theorem dropWhile_append (hfront : ∀ c ∈ front, p c = true) (hrest : Ends p rest) :
    (front ++ rest).dropWhile p = rest := by
  rw [List.dropWhile_append_of_pos hfront]
  cases rest with
  | nil => rfl
  | cons c rest => simp [hrest c rfl]

/-- What is left of a text does not go on with what was taken from it. -/
theorem ends_dropWhile (p : α → Bool) (text : List α) : Ends p (text.dropWhile p) := by
  intro c hc
  have hhead := List.head?_dropWhile_not p text
  rwa [Option.mem_def.mp hc] at hhead

end Front

end Backplane.Text
