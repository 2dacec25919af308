import Backplane.Proofs.Lock.Registration
import Backplane.Proofs.Text.Numeral
import Backplane.Proofs.Text.Split

/-!
# `Backplane.Proofs.Lock.Decl`: declarations of resource types, written and read

A declaration is written as its name and its number of permits with a colon
between them, and `:multi` behind it if the locks of the type may be shared.
`Writable` says for which types this can be read: no separator stands in the
name, no blank in front of it, and the number is one that a lock can have. The
main statements:

* `ofParts?_write`: such a text is read as its declaration.
* `parseAll_append`: a list is read entry by entry, so an entry that is no
  declaration spoils no other.
* `parseAll_inverts_writing`: both, for all texts and all lists.
-/

set_option autoImplicit false

namespace Backplane.Lock.TypeDecl

open Text

/-- The text of a declaration. -/
def write (d : TypeDecl) : String :=
  let counted := d.name ++ ":" ++ toString d.maxLocks
  if d.allowMulti then counted ++ ":multi" else counted

/-- A declaration that can be written and read. -/
structure Writable (d : TypeDecl) : Prop where
  valid : d.Valid
  name_ne : d.name ≠ ""
  name_plain : ∀ c ∈ d.name.toList, c ≠ ':' ∧ c ≠ ','
  head_not_blank : ∀ c ∈ d.name.toList.head?, isBlank c = false

/-- A declaration in a list, with blanks around it. -/
structure Entry where
  before : String
  decl : TypeDecl
  after : String
deriving Repr, DecidableEq

/-- The text of an entry. -/
def Entry.write (e : Entry) : String := e.before ++ e.decl.write ++ e.after

/-- A declaration that can be read, with nothing but blanks around it. -/
structure Entry.Padded (e : Entry) : Prop where
  writable : e.decl.Writable
  before_blank : ∀ c ∈ e.before.toList, isBlank c = true
  after_blank : ∀ c ∈ e.after.toList, isBlank c = true

variable {d : TypeDecl} {e : Entry}

/-! ### The characters of a declaration -/

/-- What stands behind the number of permits. -/
def suffix (d : TypeDecl) : List Char := if d.allowMulti then ":multi".toList else []

theorem toList_write (d : TypeDecl) : d.write.toList
    = d.name.toList ++ ':' :: (Nat.toDigits 10 d.maxLocks ++ d.suffix) := by
  unfold write suffix
  cases d.allowMulti <;> simp

theorem head?_write (h : d.Writable) : ∀ c ∈ d.write.toList.head?, isBlank c = false := by
  have hne : d.name.toList ≠ [] := String.toList_eq_nil_iff.not.mpr h.name_ne
  rw [toList_write, List.head?_append_of_ne_nil _ hne]
  exact h.head_not_blank

/-- A declaration ends with a digit or a letter. -/
theorem last_not_blank_write (d : TypeDecl) :
    ∀ c ∈ d.write.toList.getLast?, isBlank c = false := by
  intro c hc
  rw [toList_write] at hc
  cases hmulti : d.allowMulti with
  | true =>
    have hlast : c = 'i' := by
      simpa [suffix, hmulti, List.getLast?_cons, List.getLast?_append] using hc.symm
    rw [hlast]
    decide
  | false =>
    have hne : Nat.toDigits 10 d.maxLocks ≠ [] := Nat.toDigits_ne_nil
    have hlast : c ∈ (Nat.toDigits 10 d.maxLocks).getLast? := by
      simpa [suffix, hmulti, List.getLast?_append, List.getLast?_cons,
        List.getLast?_eq_some_getLast hne] using hc
    exact isBlank_of_isDigit (isDigit_of_mem_digits _ c (List.mem_of_getLast? hlast))

/-- No declaration holds the separator of entries. -/
theorem comma_not_mem_write (h : d.Writable) : ',' ∉ d.write.toList := by
  have hname : ',' ∉ d.name.toList := fun hc => (h.name_plain _ hc).2 rfl
  have hdigits : ',' ∉ Nat.toDigits 10 d.maxLocks := fun hc =>
    absurd (isDigit_of_mem_digits _ _ hc) (by decide)
  have hsuffix : ',' ∉ d.suffix := by
    unfold suffix
    split <;> decide
  rw [toList_write]
  simp [hname, hdigits, hsuffix]

/-! ### Reading one entry -/

/-- A declaration is cut into its fields. -/
theorem split_write (h : d.Writable) : split ':' d.write.toList
    = d.name.toList :: Nat.toDigits 10 d.maxLocks ::
      if d.allowMulti then ["multi".toList] else [] := by
  have hname : ':' ∉ d.name.toList := fun hc => (h.name_plain _ hc).1 rfl
  have hdigits : ':' ∉ Nat.toDigits 10 d.maxLocks := fun hc =>
    absurd (isDigit_of_mem_digits _ _ hc) (by decide)
  rw [toList_write, split_append, split_of_not_mem hname]
  unfold suffix
  cases d.allowMulti with
  | true =>
    show _ ++ split ':' (_ ++ ':' :: "multi".toList) = _
    rw [split_append, split_of_not_mem hdigits, split_of_not_mem (by decide)]
    rfl
  | false =>
    simp [split_of_not_mem hdigits]

/-- The fields of a declaration are read as the declaration. -/
theorem ofParts?_write (h : d.Writable) : ofParts? (split ':' d.write.toList) = some d := by
  have hname : d.name.toList.isEmpty = false :=
    List.isEmpty_eq_false_iff.mpr (String.toList_eq_nil_iff.not.mpr h.name_ne)
  have hmax : d.maxLocks ≤ maxUnsigned := h.valid.2.trans (by decide)
  have hcount : isCount d.maxLocks = true := by
    simp [isCount, h.valid.1, h.valid.2]
  rw [split_write h, ofParts?, hname, if_neg Bool.false_ne_true, unsigned?_toDigits hmax,
    Option.filter_some, if_pos hcount, Option.map_some, String.ofList_toList]
  -- Only the last field is left, which is there for shared types alone.
  obtain ⟨name, maxLocks, allowMulti⟩ := d
  cases allowMulti <;> rfl

/-- An entry is read as its declaration, whatever blanks are around it. -/
theorem Entry.Padded.reads (h : e.Padded) :
    Reads (fun body => ofParts? (split ':' body)) ',' e.before.toList e.decl.write.toList
      e.after.toList e.decl where
  pre_blank := h.before_blank
  post_blank := h.after_blank
  sep_not_mem := comma_not_mem_write h.writable
  head_not_blank := head?_write h.writable
  last_not_blank := last_not_blank_write e.decl
  read_eq := ofParts?_write h.writable

/-! ### Reading a list -/

/-- A list of entries is read entry by entry. What stands in front of a
separator does not depend on what stands behind it. -/
theorem parseAll_append (a b : String) : parseAll (a ++ "," ++ b) = parseAll a ++ parseAll b := by
  unfold parseAll
  rw [String.toList_append, String.toList_append, List.append_assoc]
  exact filterMap_split_append parse? ',' a.toList b.toList

/-- A list of entries that can be read is read as their declarations. -/
theorem parseAll_intercalate {entries : List Entry} (h : ∀ e ∈ entries, e.Padded) :
    parseAll (",".intercalate (entries.map Entry.write)) = entries.map Entry.decl := by
  have hall := filterMap_split_padded (fun body => ofParts? (split ':' body)) ','
    (by decide) rfl fun e he => (h e he).reads
  have hwrite : entries.map (String.toList ∘ Entry.write) = entries.map fun e =>
      e.before.toList ++ e.decl.write.toList ++ e.after.toList := by
    simp [Entry.write]
  unfold parseAll
  rw [String.toList_intercalate, List.map_map, hwrite]
  exact hall

/-- Reading undoes writing, and malformed entries do no harm. Two texts with a
comma between them are read like each of them alone, whatever they hold; so are
the entries of a text. And declarations that were written with commas between
them, and blanks around them, are read as just these declarations. -/
theorem parseAll_inverts_writing :
    (∀ a b : String, parseAll (a ++ "," ++ b) = parseAll a ++ parseAll b) ∧
      ∀ entries : List Entry, (∀ e ∈ entries, e.Padded) →
        parseAll (",".intercalate (entries.map Entry.write)) = entries.map Entry.decl :=
  ⟨parseAll_append, fun _ => parseAll_intercalate⟩

/-- Types with the smallest and the largest number of permits, a blank and a
colon-free mark inside of names, and blanks of several kinds around them. -/
def oddEntries : List Entry :=
  [⟨"\u3000 ", ⟨"patient record ", 2305843009213693951, true⟩, "\n"⟩,
   ⟨"", ⟨"ü;|", 1, false⟩, "\t"⟩]

/-- They are read back. -/
theorem parseAll_inverts_writing_oddEntries :
    (∀ e ∈ oddEntries, e.Padded) ∧
      parseAll (",".intercalate (oddEntries.map Entry.write)) = oddEntries.map Entry.decl := by
  have hpadded : ∀ e ∈ oddEntries, e.Padded := by
    refine List.forall_mem_cons.mpr ⟨?_, List.forall_mem_singleton.mpr ?_⟩
    · exact ⟨⟨⟨by decide, by decide⟩, by decide, by simp, by simp [isBlank]⟩, by simp [isBlank],
        by simp [isBlank]⟩
    · exact ⟨⟨⟨by decide, by decide⟩, by decide, by simp, by simp [isBlank]⟩, by simp [isBlank],
        by simp [isBlank]⟩
  exact ⟨hpadded, parseAll_inverts_writing.2 oddEntries hpadded⟩

end Backplane.Lock.TypeDecl
