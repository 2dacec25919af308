import Backplane.Json.Record
import Backplane.Proofs.Json.Tree
import Mathlib.Data.List.Count
import Mathlib.Data.List.Forall2
import Mathlib.Data.List.Nodup
import Mathlib.Data.List.Perm.Basic

/-!
# `Backplane.Proofs.Json.Record`: records read from the texts of objects

A record is written as an object with one member for each of its fields. Whoever
reads it looks for the members by name, so that neither their order nor any
other members matter, but each name may stand once only. `Form` has what is
specific to a type of records, `Form.Faithful` says what is to hold of reading
and writing, and `Form.BuiltBy` what has to be shown for a type. The main
statements:

* `exists_fields?`: the fields of an object whose members are some own ones and
  others, in any order.
* `fields?_of_repeated`, `exists_of_fields?`: no field stands twice, and one that
  is found is a member.
* `Form.BuiltBy.faithful`: what holds of every type of records.
-/

set_option autoImplicit false

namespace Backplane.Json

/-! ### Lists of results -/

section Results

variable {α β κ : Type} {g : κ → Option β}

/-- All results are there if they are the results one by one. -/
theorem map_some_of_mapM {names : List κ} {fs : List β} (h : names.mapM g = some fs) :
    names.map g = fs.map some := by
  induction names generalizing fs with
  | nil =>
    cases h
    rfl
  | cons name rest ih =>
    simp only [List.mapM_cons, Option.pure_def, Option.bind_eq_bind, Option.bind_eq_some_iff,
      Option.some.injEq] at h
    obtain ⟨f, hf, fs', hfs', rfl⟩ := h
    rw [List.map_cons, hf, ih hfs', List.map_cons]

/-- All results are there, each as it should be. -/
theorem exists_mapM {name : α → κ} {R : α → β → Prop} {own : List α}
    (h : ∀ m ∈ own, ∃ f, g (name m) = some f ∧ R m f) :
    ∃ fs, (own.map name).mapM g = some fs ∧ List.Forall₂ R own fs := by
  induction own with
  | nil => exact ⟨[], rfl, .nil⟩
  | cons m rest ih =>
    obtain ⟨⟨f, hf, hm⟩, hrest⟩ := List.forall_mem_cons.mp h
    obtain ⟨fs, hfs, hall⟩ := ih hrest
    refine ⟨f :: fs, ?_, .cons hm hall⟩
    rw [List.map_cons, List.mapM_cons, hf, hfs]
    rfl

end Results

/-! ### Members by name -/

namespace Tree

/-- The object of some members whose names are texts. -/
def ofMembers (ms : List (String × Tree)) : Tree := .object (ms.map fun m => (some m.1, m.2))

variable {name : String} {names : List String} {own extra ms : List (String × Tree)}
  {members : List (Option String × Tree)}

/-- There are as many values of a name as it stands in the object. -/
theorem length_named (name : String) (members : List (Option String × Tree)) :
    (named name members).length = (members.map Prod.fst).count (some name) := by
  rw [named, List.length_map, List.count, List.countP_map, List.countP_eq_length_filter]
  rfl

/-- The values of a name that stands once among some members, and not among
others, in any order. -/
theorem named_of_mem (hperm : ms.Perm (own ++ extra)) (hnodup : (own.map Prod.fst).Nodup)
    {m : String × Tree} (hm : m ∈ own) (hextra : ∀ m' ∈ extra, m'.1 ≠ m.1) :
    named m.1 (ms.map fun m => (some m.1, m.2)) = [m.2] := by
  have hown : own.filter (fun m' => m'.1 == m.1) = [m] := by
    obtain ⟨before, after, rfl⟩ := List.append_of_mem hm
    rw [List.map_append, List.map_cons, List.nodup_middle, List.nodup_cons, List.mem_append,
      not_or] at hnodup
    obtain ⟨⟨hbefore, hafter⟩, -⟩ := hnodup
    have hnone : ∀ l : List (String × Tree), m.1 ∉ l.map Prod.fst →
        l.filter (fun m' => m'.1 == m.1) = [] := by
      intro l hl
      rw [List.filter_eq_nil_iff]
      intro m' hm' heq
      exact hl (eq_of_beq heq ▸ List.mem_map_of_mem hm')
    rw [List.filter_append, hnone before hbefore, List.filter_cons_of_pos (by simp),
      hnone after hafter]
    rfl
  have hothers : extra.filter (fun m' => m'.1 == m.1) = [] := by
    rw [List.filter_eq_nil_iff]
    intro m' hm' heq
    exact hextra m' hm' (eq_of_beq heq)
  -- A list of one element has no other order.
  have hfilter := hperm.filter (fun m' => m'.1 == m.1)
  rw [List.filter_append, hown, hothers, List.append_nil, List.perm_singleton] at hfilter
  rw [named, List.filter_map, List.map_map]
  show (ms.filter fun m' => some m'.1 == some m.1).map Prod.snd = [m.2]
  simp only [Option.some_beq_some, hfilter, List.map_cons, List.map_nil]

/-- A name that does not stand among the members has no values. -/
theorem named_eq_nil (h : some name ∉ members.map Prod.fst) : named name members = [] := by
  rw [← List.length_eq_zero_iff, length_named, List.count_eq_zero_of_not_mem h]

/-- The fields of an object whose members are some own ones and others, in any
order. A field is there if its member is among the own ones. -/
theorem exists_fields? {all : List (String × Tree)} (hperm : ms.Perm (own ++ extra))
    (hnodup : (all.map Prod.fst).Nodup) (hsub : own.Sublist all)
    (hextra : ∀ m ∈ extra, m.1 ∉ all.map Prod.fst) :
    ∃ fs, fields? (all.map Prod.fst) (ofMembers ms) = some fs ∧
      List.Forall₂ (fun m f => f = some m.2 ∨ m ∈ all ∧ m ∉ own ∧ f = none) all fs := by
  have hnames : (ms.map fun m => (some m.1, m.2)).all (fun m => m.1.isSome) = true := by simp
  rw [ofMembers, fields?, if_pos hnames]
  refine exists_mapM fun m hm => ?_
  by_cases hown : m ∈ own
  · have hothers : ∀ m' ∈ extra, m'.1 ≠ m.1 := fun m' hm' heq =>
      hextra m' hm' (heq ▸ List.mem_map_of_mem hm)
    refine ⟨some m.2, ?_, .inl rfl⟩
    rw [atMostOnce?, named_of_mem hperm (hnodup.sublist (hsub.map _)) hown hothers]
  · refine ⟨none, ?_, .inr ⟨hm, hown, rfl⟩⟩
    rw [atMostOnce?, named_eq_nil]
    rw [List.map_map]
    intro hmem
    obtain ⟨m', hm', heq⟩ := List.mem_map.mp hmem
    have hname : m'.1 = m.1 := Option.some.inj heq
    rcases List.mem_append.mp (hperm.subset hm') with hm' | hm'
    · -- Two members of one name are the same.
      exact hown (List.inj_on_of_nodup_map hnodup (hsub.subset hm') hm hname ▸ hm')
    · exact hextra m' hm' (hname ▸ List.mem_map_of_mem hm)

/-- No record is read from an object in which the name of a field stands twice. -/
theorem fields?_of_repeated (hname : name ∈ names)
    (htwice : 2 ≤ (members.map Prod.fst).count (some name)) :
    fields? names (.object members) = none := by
  have hnone : atMostOnce? name members = none := by
    rw [← length_named] at htwice
    unfold atMostOnce?
    split
    · rename_i hnamed
      rw [hnamed, List.length_nil] at htwice
      omega
    · rename_i hnamed
      rw [hnamed, List.length_singleton] at htwice
      omega
    · rfl
  rw [fields?]
  split
  · rw [Option.eq_none_iff_forall_ne_some]
    intro fs hfs
    have hmem : atMostOnce? name members ∈ names.map fun name => atMostOnce? name members :=
      List.mem_map_of_mem hname
    rw [map_some_of_mapM hfs, hnone] at hmem
    obtain ⟨f, -, hf⟩ := List.mem_map.mp hmem
    cases hf
  · rfl

/-- A field that is found is a member. -/
theorem exists_of_fields? {fs : List (Option Tree)} {P : String → Option Tree → Prop}
    (h : fields? names (.object members) = some fs) (hall : List.Forall₂ P names fs)
    (hname : name ∈ names) :
    ∃ f, P name f ∧ (f.isSome = true → some name ∈ members.map Prod.fst) := by
  rw [fields?] at h
  split at h
  · -- Each result belongs to its name.
    have hresults : List.Forall₂ (fun name r => ∃ f, r = some f ∧ P name f) names
        (names.map fun name => atMostOnce? name members) := by
      rw [map_some_of_mapM h, List.forall₂_map_right_iff]
      exact hall.imp fun _ f hf => ⟨f, rfl, hf⟩
    rw [List.forall₂_map_right_iff, List.forall₂_same] at hresults
    obtain ⟨f, hf, hP⟩ := hresults name hname
    refine ⟨f, hP, fun hsome => ?_⟩
    by_contra hmissing
    rw [atMostOnce?, named_eq_nil hmissing] at hf
    cases hf
    cases hsome
  · cases h

end Tree

/-! ### Types of records -/

/-- How records of a type are written, and read again. -/
structure Form (α : Type) where
  write : α → Json
  read? : Tree → Option α
  /-- The names of the members, in the order in which they are written. -/
  names : List String
  /-- The names of those that need not be there. The empty text is read instead. -/
  optional : List String
  /-- The values that there are of the type. -/
  Proper : α → Prop

namespace Form

variable {α : Type}

/-- The record that a text is read as. -/
def ofText? (F : Form α) (text : String) : Option α := (Tree.ofString? text).bind F.read?

/-- The members of a value, as they are read. -/
def members (F : Form α) (x : α) : List (String × Tree) :=
  match F.write x with
  | .object ms => ms.map fun m => (m.1, m.2.toTree)
  | _ => []

/-- The members of a value, some of them left out: those that need not be there
and are the empty text. -/
structure Own (F : Form α) (x : α) (own : List (String × Tree)) : Prop where
  sublist : own.Sublist (F.members x)
  omitted : ∀ m ∈ F.members x, m ∉ own → m.1 ∈ F.optional ∧ m.2 = .string (some "")

/-- What is written is read back, however it is written. -/
structure Faithful (F : Form α) : Prop where
  /-- The compact text of a value is read as the value. -/
  compact : ∀ x, F.Proper x → F.ofText? (F.write x).render = some x
  /-- So is any text of an object with the members of the value and any others,
  in any order. -/
  any_order : ∀ x, F.Proper x → ∀ own extra ms, F.Own x own → (∀ m ∈ extra, m.1 ∉ F.names) →
    ms.Perm (own ++ extra) → ∀ text : String, IsText text.toList (.ofMembers ms) →
    F.ofText? text = some x
  /-- A member of the record may not stand twice. -/
  repeated : ∀ name ∈ F.names, ∀ members, 2 ≤ (members.map Prod.fst).count (some name) →
    ∀ text : String, IsText text.toList (.object members) → F.ofText? text = none
  /-- A member that has to be there may not be missing. -/
  missing : ∀ name ∈ F.names, name ∉ F.optional → ∀ members, some name ∉ members.map Prod.fst →
    ∀ text : String, IsText text.toList (.object members) → F.ofText? text = none

/-- A record is built from its fields, which are found by their names. -/
structure BuiltBy (F : Form α) (build? : List (Option Tree) → Option α) : Prop where
  read?_eq : ∀ t, F.read? t = (t.fields? F.names).bind build?
  nodup : F.names.Nodup
  /-- A value is written as an object of its members. -/
  toTree_write : ∀ x, (F.write x).toTree = .ofMembers (F.members x)
  map_members : ∀ x, (F.members x).map Prod.fst = F.names
  literal : ∀ x, (F.write x).Literal
  /-- The members of a value build the value, also if some are not there. -/
  build_members : ∀ x, F.Proper x → ∀ fs, List.Forall₂ (fun m f => f = some m.2 ∨
    m.1 ∈ F.optional ∧ m.2 = .string (some "") ∧ f = none) (F.members x) fs → build? fs = some x
  /-- Nothing is built if a field is absent that has to be there. -/
  present : ∀ fs x, build? fs = some x →
    List.Forall₂ (fun name f => name ∈ F.optional ∨ f.isSome = true) F.names fs

variable {F : Form α} {build? : List (Option Tree) → Option α}

/-- If every member has to be there, the fields are those of the members. -/
theorem fields_eq_of_required {optional : List String} {ms : List (String × Tree)}
    {fs : List (Option Tree)} (hrequired : optional = [])
    (hall : List.Forall₂ (fun m f => f = some m.2 ∨
      m.1 ∈ optional ∧ m.2 = .string (some "") ∧ f = none) ms fs) :
    fs = ms.map fun m => some m.2 := by
  subst hrequired
  induction hall with
  | nil => rfl
  | cons hf _ ih =>
    rw [hf.resolve_right fun hmissing => List.not_mem_nil hmissing.1, ih]
    rfl

/-- A text of the grammar is read as its tree. -/
theorem BuiltBy.ofText?_eq (h : F.BuiltBy build?) {text : String} {t : Tree}
    (htext : IsText text.toList t) : F.ofText? text = (t.fields? F.names).bind build? := by
  rw [ofText?, ofString?_of_isText htext, Option.bind_some, h.read?_eq]

theorem BuiltBy.ofText?_of_perm (h : F.BuiltBy build?) {x : α} (hx : F.Proper x)
    {own extra ms : List (String × Tree)} (hown : F.Own x own)
    (hextra : ∀ m ∈ extra, m.1 ∉ F.names) (hperm : ms.Perm (own ++ extra)) {text : String}
    (htext : IsText text.toList (.ofMembers ms)) : F.ofText? text = some x := by
  have hnames := h.map_members x
  have hnodup : ((F.members x).map Prod.fst).Nodup := hnames ▸ h.nodup
  obtain ⟨fs, hfs, hall⟩ := Tree.exists_fields? hperm hnodup hown.sublist (hnames ▸ hextra)
  rw [h.ofText?_eq htext, ← hnames, hfs, Option.bind_some]
  refine h.build_members x hx fs (hall.imp fun m f hf => hf.imp_right ?_)
  rintro ⟨hm, hno, hf⟩
  obtain ⟨hoptional, hempty⟩ := hown.omitted m hm hno
  exact ⟨hoptional, hempty, hf⟩

/-- What holds of every type of records. -/
theorem BuiltBy.faithful (h : F.BuiltBy build?) : F.Faithful where
  compact x hx := by
    have htext := isText_render (h.literal x)
    rw [h.toTree_write] at htext
    have hown : F.Own x (F.members x) := ⟨List.Sublist.refl _, fun m hm hno => absurd hm hno⟩
    have hperm : (F.members x).Perm (F.members x ++ []) := .of_eq (List.append_nil _).symm
    exact h.ofText?_of_perm hx hown (by simp) hperm htext
  any_order x hx own extra ms hown hextra hperm text htext :=
    h.ofText?_of_perm hx hown hextra hperm htext
  repeated name hname members htwice text htext := by
    rw [h.ofText?_eq htext, Tree.fields?_of_repeated hname htwice]
    rfl
  missing name hname hrequired members hmissing text htext := by
    rw [h.ofText?_eq htext, Option.eq_none_iff_forall_ne_some]
    intro x hx
    obtain ⟨fs, hfs, hbuild⟩ := Option.bind_eq_some_iff.mp hx
    obtain ⟨f, hf, hmem⟩ := Tree.exists_of_fields? hfs (h.present fs x hbuild) hname
    exact hmissing (hmem (hf.resolve_left hrequired))

end Form

end Backplane.Json
