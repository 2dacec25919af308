import Backplane.Node.UserDecl
import Backplane.Proofs.Text.Numeral
import Backplane.Proofs.Text.Split

/-!
# `Backplane.Proofs.Node.UserDecl`: declarations of users, written and read

A declaration is written as its id, its name, its password and its roles,
with colons between these fields and bars between the roles; without roles
the last field is left out. `Writable` says for which users this can be
read: the separators of a field must not stand in it, and no blank may end
the text, because blanks around an entry do not count. The main statements:

* `Entry.Padded.reads`: such an entry is read as its declaration.
* `parseAll_append`: a list of entries is read entry by entry, so an entry
  that is no declaration is passed over and spoils no other.
* `parseAll_undoes_writing`: both, for all texts and all lists.
-/

set_option autoImplicit false

namespace Backplane.Node.UserDecl

open Text

/-- The text of a declaration. -/
def write (d : UserDecl) : String :=
  let account := toString d.id ++ ":" ++ d.name ++ ":" ++ d.password
  if d.roles.isEmpty then account else account ++ ":" ++ "|".intercalate d.roles

/-- The field that a declaration ends with: its last role, if it has roles,
and else its password. -/
def lastField (d : UserDecl) : String := d.roles.getLast?.getD d.password

/-- A declaration that can be written and read. -/
structure Writable (d : UserDecl) : Prop where
  id_fits : fitsSigned d.id = true
  name_ne : d.name ≠ ""
  name_plain : ∀ c ∈ d.name.toList, c ≠ ':' ∧ c ≠ ';'
  password_plain : ∀ c ∈ d.password.toList, c ≠ ':' ∧ c ≠ ';'
  role_ne : ∀ r ∈ d.roles, r ≠ ""
  role_plain : ∀ r ∈ d.roles, ∀ c ∈ r.toList, c ≠ '|' ∧ c ≠ ';'
  last_not_blank : ∀ c ∈ d.lastField.toList.getLast?, isBlank c = false

/-- A declaration in a list, with blanks around it. -/
structure Entry where
  before : String
  decl : UserDecl
  after : String
deriving Repr, DecidableEq

/-- The text of an entry. -/
def Entry.write (e : Entry) : String := e.before ++ e.decl.write ++ e.after

/-- A declaration that can be read, with nothing but blanks around it. -/
structure Entry.Padded (e : Entry) : Prop where
  writable : e.decl.Writable
  before_blank : ∀ c ∈ e.before.toList, isBlank c = true
  after_blank : ∀ c ∈ e.after.toList, isBlank c = true

variable {d : UserDecl} {e : Entry}

/-! ### The characters of a declaration -/

/-- The characters of the id. -/
def idChars (d : UserDecl) : List Char := (toString d.id).toList

/-- The characters of the roles. -/
def roleChars (d : UserDecl) : List Char := ['|'].intercalate (d.roles.map String.toList)

theorem toList_write (d : UserDecl) : d.write.toList
    = d.idChars ++ ':' :: (d.name.toList ++ ':' :: (d.password.toList ++
      if d.roles = [] then [] else ':' :: d.roleChars)) := by
  unfold write idChars roleChars
  by_cases h : d.roles = []
  · simp [h]
  · simp [h]

/-- A digit or a minus is no blank, and no separator. -/
theorem plain_of_mem_idChars {c : Char} (h : c ∈ d.idChars) :
    isBlank c = false ∧ c ≠ ':' ∧ c ≠ ';' := by
  rcases mem_toString_int h with rfl | hdigit
  · decide
  · refine ⟨isBlank_of_isDigit hdigit, ?_, ?_⟩ <;>
    · rintro rfl
      exact absurd hdigit (by decide)

/-- No declaration begins with a blank. -/
theorem head?_write (d : UserDecl) : ∀ c ∈ d.write.toList.head?, isBlank c = false := by
  intro c hc
  have hne : d.idChars ≠ [] := toString_int_ne_nil d.id
  rw [toList_write, List.head?_append_of_ne_nil _ hne] at hc
  exact (plain_of_mem_idChars (List.mem_of_mem_head? hc)).1

/-- A declaration ends with its last field, or with a colon if that is
empty. -/
theorem getLast?_write (h : d.Writable) :
    d.write.toList.getLast? = d.lastField.toList.getLast?.or (some ':') := by
  rw [toList_write]
  unfold lastField
  cases hlast : d.roles.getLast? with
  | none =>
    have hroles : d.roles = [] := List.getLast?_eq_none_iff.mp hlast
    simp [hroles, List.getLast?_append, List.getLast?_cons]
  | some role =>
    have hmem : role ∈ d.roles := List.mem_of_getLast? hlast
    have hne : role.toList ≠ [] := String.toList_eq_nil_iff.not.mpr (h.role_ne role hmem)
    have hchars : d.roleChars.getLast? = role.toList.getLast? :=
      getLast?_intercalate (by rw [List.getLast?_map, hlast, Option.map_some]) hne
    simp [List.ne_nil_of_mem hmem, hchars, List.getLast?_append, List.getLast?_cons]

/-- No declaration ends with a blank. -/
theorem last_not_blank_write (h : d.Writable) :
    ∀ c ∈ d.write.toList.getLast?, isBlank c = false := by
  intro c hc
  rw [getLast?_write h] at hc
  cases hfield : d.lastField.toList.getLast? with
  | none =>
    rw [hfield] at hc
    cases hc
    decide
  | some c' =>
    rw [hfield] at hc
    cases hc
    exact h.last_not_blank c hfield

/-- No declaration holds the separator of entries. -/
theorem semicolon_not_mem_write (h : d.Writable) : ';' ∉ d.write.toList := by
  have hid : ';' ∉ d.idChars := fun hc => (plain_of_mem_idChars hc).2.2 rfl
  have hname : ';' ∉ d.name.toList := fun hc => (h.name_plain _ hc).2 rfl
  have hpassword : ';' ∉ d.password.toList := fun hc => (h.password_plain _ hc).2 rfl
  have hroles : ';' ∉ d.roleChars := by
    intro hc
    rcases mem_of_mem_intercalate hc with hbar | ⟨part, hpart, hc⟩
    · exact absurd hbar (by decide)
    · obtain ⟨role, hrole, rfl⟩ := List.mem_map.mp hpart
      exact (h.role_plain role hrole _ hc).2 rfl
  rw [toList_write]
  split
  · simp [hid, hname, hpassword]
  · simp [hid, hname, hpassword, hroles]

/-! ### Reading one entry -/

/-- The roles are read back. -/
theorem parseRoles_roleChars (h : d.Writable) (hroles : d.roles ≠ []) :
    parseRoles d.roleChars = d.roles := by
  have hparts : ∀ part ∈ d.roles.map String.toList, '|' ∉ part :=
    List.forall_mem_map.mpr fun role hrole hc => (h.role_plain role hrole _ hc).1 rfl
  have hkept : (d.roles.map String.toList).filter (fun r => !r.isEmpty)
      = d.roles.map String.toList := by
    refine List.filter_eq_self.mpr (List.forall_mem_map.mpr fun role hrole => ?_)
    have hne : role.toList ≠ [] := String.toList_eq_nil_iff.not.mpr (h.role_ne role hrole)
    simp [hne]
  unfold parseRoles roleChars
  rw [split_intercalate (List.map_eq_nil_iff.not.mpr hroles) hparts, hkept, List.map_map]
  exact List.map_id'' (fun _ => String.ofList_toList) d.roles

/-- A declaration is cut into its fields. -/
theorem splitUpTo_write (h : d.Writable) : splitUpTo ':' 3 d.write.toList
    = d.idChars :: d.name.toList :: d.password.toList ::
      if d.roles = [] then [] else [d.roleChars] := by
  have hid : ':' ∉ d.idChars := fun hc => (plain_of_mem_idChars hc).2.1 rfl
  have hname : ':' ∉ d.name.toList := fun hc => (h.name_plain _ hc).1 rfl
  have hpassword : ':' ∉ d.password.toList := fun hc => (h.password_plain _ hc).1 rfl
  rw [toList_write, splitUpTo_cons hid, splitUpTo_cons hname]
  split
  · rw [List.append_nil, splitUpTo_of_not_mem hpassword]
  · -- No cut is left for the colons in the roles.
    rw [splitUpTo_cons hpassword]
    rfl

/-- The fields of a declaration are read as the declaration. -/
theorem ofParts?_fields (h : d.Writable) :
    ofParts? (d.idChars :: d.name.toList :: d.password.toList ::
      if d.roles = [] then [] else [d.roleChars]) = some d := by
  have hname : d.name.toList.isEmpty = false :=
    List.isEmpty_eq_false_iff.mpr (String.toList_eq_nil_iff.not.mpr h.name_ne)
  have hroles : ((if d.roles = [] then [] else [d.roleChars]).head?.map parseRoles).getD []
      = d.roles := by
    split
    · rename_i hnil
      rw [hnil]
      rfl
    · rename_i hne
      exact parseRoles_roleChars h hne
  rw [ofParts?, hname, if_neg Bool.false_ne_true, idChars, signed?_toString h.id_fits,
    Option.map_some, String.ofList_toList, String.ofList_toList, hroles]

/-- An entry is read as its declaration, whatever blanks are around it. -/
theorem Entry.Padded.reads (h : e.Padded) :
    Reads (fun body => ofParts? (splitUpTo ':' 3 body)) ';' e.before.toList e.decl.write.toList
      e.after.toList e.decl where
  pre_blank := h.before_blank
  post_blank := h.after_blank
  sep_not_mem := semicolon_not_mem_write h.writable
  head_not_blank := head?_write e.decl
  last_not_blank := last_not_blank_write h.writable
  read_eq := by rw [splitUpTo_write h.writable, ofParts?_fields h.writable]

/-! ### Reading a list -/

/-- A list of entries is read entry by entry. What stands in front of a
separator does not depend on what stands behind it. -/
theorem parseAll_append (a b : String) : parseAll (a ++ ";" ++ b) = parseAll a ++ parseAll b := by
  unfold parseAll
  rw [String.toList_append, String.toList_append, List.append_assoc]
  exact filterMap_split_append parse? ';' a.toList b.toList

/-- A list of entries that can be read is read as their declarations. -/
theorem parseAll_intercalate {entries : List Entry} (h : ∀ e ∈ entries, e.Padded) :
    parseAll (";".intercalate (entries.map Entry.write)) = entries.map Entry.decl := by
  have hall := filterMap_split_padded (fun body => ofParts? (splitUpTo ':' 3 body)) ';'
    (by decide) rfl fun e he => (h e he).reads
  have hwrite : entries.map (String.toList ∘ Entry.write) = entries.map fun e =>
      e.before.toList ++ e.decl.write.toList ++ e.after.toList := by
    simp [Entry.write]
  unfold parseAll
  rw [String.toList_intercalate, List.map_map, hwrite]
  exact hall

/-- Reading undoes writing, and malformed entries do no harm. Two texts with
a semicolon between them are read like each of them alone, whatever they hold;
so are the entries of a text. And declarations that were written with
semicolons between them, and blanks around them, are read as just these
declarations. -/
theorem parseAll_undoes_writing :
    (∀ a b : String, parseAll (a ++ ";" ++ b) = parseAll a ++ parseAll b) ∧
      ∀ entries : List Entry, (∀ e ∈ entries, e.Padded) →
        parseAll (";".intercalate (entries.map Entry.write)) = entries.map Entry.decl :=
  ⟨parseAll_append, fun _ => parseAll_intercalate⟩

/-- Users with the smallest id, blanks and bars inside of fields, a role with
colons, and an empty password at the end. -/
def oddEntries : List Entry :=
  [⟨"\u3000 ", ⟨-9223372036854775808, "a b", "p|w ", [" x ", "a:b:"]⟩, "\n"⟩,
   ⟨"", ⟨0, "ü", "", []⟩, "\t"⟩]

/-- They are read back. -/
theorem parseAll_undoes_writing_oddEntries :
    (∀ e ∈ oddEntries, e.Padded) ∧
      parseAll (";".intercalate (oddEntries.map Entry.write)) = oddEntries.map Entry.decl := by
  have hpadded : ∀ e ∈ oddEntries, e.Padded := by
    refine List.forall_mem_cons.mpr ⟨?_, List.forall_mem_singleton.mpr ?_⟩
    · exact ⟨⟨by decide, by decide, by simp, by simp, by decide, by simp,
        by simp [lastField, isBlank]⟩, by simp [isBlank], by simp [isBlank]⟩
    · exact ⟨⟨by decide, by decide, by simp, by simp, by decide, by simp,
        by simp [lastField, isBlank]⟩, by simp [isBlank], by simp [isBlank]⟩
  exact ⟨hpadded, parseAll_undoes_writing.2 oddEntries hpadded⟩

end Backplane.Node.UserDecl
