import Backplane.Lock.Decl
import Backplane.Proofs.Lock.Service
import Mathlib.Data.List.Induction

/-!
# `Backplane.Proofs.Lock.Registration`: services of declared types

A service can be made of a list of declarations, which are registered one
after the other. A name may be declared again if it says the same. The
numbers of permits are judged twice, where a declaration is read and where it
is registered, by the same bounds, so a declaration that was read is never
refused for its number. The main statements:

* `valid_of_mem_parseAll`: the declarations of a text are within bounds.
* `createResource_of_valid`: what one of them does to a service.
* `ofDecls_cases`: a list of them is registered as a whole, or ends at the
  first declaration that contradicts an earlier one.
* `ofDecls_parseAll`: the service of a text, for every text.
-/

set_option autoImplicit false

namespace Backplane.Lock

namespace TypeDecl

/-- A declaration with a number of permits that a lock can have. -/
def Valid (d : TypeDecl) : Prop := 1 ≤ d.maxLocks ∧ d.maxLocks ≤ maxPermits

/-- Two declarations say the same of their types. -/
def Agrees (d d' : TypeDecl) : Prop := d.maxLocks = d'.maxLocks ∧ d.allowMulti = d'.allowMulti

/-- No name is declared in two ways. -/
def Consistent (ds : List TypeDecl) : Prop :=
  ∀ d ∈ ds, ∀ d' ∈ ds, d.name = d'.name → d.Agrees d'

/-- The first declaration of a name. -/
def first? (ds : List TypeDecl) (t : String) : Option TypeDecl := ds.find? fun d => d.name == t

/-- A declaration says something else than the first one of its name. -/
def Contradicts (ds : List TypeDecl) (d : TypeDecl) : Prop :=
  ∃ first, first? ds d.name = some first ∧ ¬ first.Agrees d

/-- The locks of a declared type, of which there are none yet. -/
def block (d : TypeDecl) : Block := ⟨d.name, d.maxLocks, d.allowMulti, ∅⟩

variable {ds before after : List TypeDecl} {d first : TypeDecl} {t : String}

/-! ### Declarations that were read -/

/-- What is read is within bounds. -/
theorem valid_of_ofParts? {parts : List (List Char)} (h : ofParts? parts = some d) : d.Valid := by
  unfold ofParts? at h
  split at h
  · split at h
    · cases h
    · obtain ⟨n, hn, rfl⟩ := Option.map_eq_some_iff.mp h
      have hcount : isCount n = true := (Option.filter_eq_some_iff.mp hn).2
      rw [isCount, Bool.and_eq_true, decide_eq_true_eq, decide_eq_true_eq] at hcount
      exact hcount
  · cases h

/-- The declarations of a text are within bounds. -/
theorem valid_of_mem_parseAll {raw : String} (h : d ∈ parseAll raw) : d.Valid := by
  obtain ⟨entry, _, hread⟩ := List.mem_filterMap.mp h
  exact valid_of_ofParts? hread

/-! ### The first declaration of a name -/

theorem mem_of_first? (h : first? ds t = some first) : first ∈ ds ∧ first.name = t := by
  have hname := List.find?_some h
  exact ⟨List.mem_of_find?_eq_some h, eq_of_beq hname⟩

/-- Whatever is declared has a first declaration. -/
theorem exists_first? (h : d ∈ ds) : ∃ first, first? ds d.name = some first := by
  refine Option.isSome_iff_exists.mp (List.find?_isSome.mpr ⟨d, h, ?_⟩)
  exact beq_self_eq_true d.name

/-- Later declarations do not change which one is the first. -/
theorem first?_append (h : first? before t = some first) (after : List TypeDecl) :
    first? (before ++ after) t = some first := by
  unfold first? at h ⊢
  rw [List.find?_append, h, Option.some_or]

/-- With one declaration more at the end. -/
theorem first?_concat (ds : List TypeDecl) (d : TypeDecl) (t : String) :
    first? (ds ++ [d]) t = (first? ds t).or (if t = d.name then some d else none) := by
  unfold first?
  rw [List.find?_append]
  congr 1
  by_cases h : t = d.name
  · simp [h]
  · simp [h, Ne.symm h]

/-- One declaration more keeps a list consistent, if it says the same as the
first one of its name. -/
theorem Consistent.concat (h : Consistent ds)
    (hfirst : ∀ first, first? ds d.name = some first → first.Agrees d) :
    Consistent (ds ++ [d]) := by
  -- Whatever has the name says the same as the first one does.
  have hsame : ∀ d' ∈ ds, d'.name = d.name → d'.Agrees d := by
    intro d' hd' hname
    obtain ⟨first, hf⟩ := exists_first? hd'
    rw [hname] at hf
    obtain ⟨hmem, hfname⟩ := mem_of_first? hf
    obtain ⟨hlocks, hmulti⟩ := h d' hd' first hmem (hname.trans hfname.symm)
    obtain ⟨hlocks', hmulti'⟩ := hfirst first hf
    exact ⟨hlocks.trans hlocks', hmulti.trans hmulti'⟩
  intro d₁ h₁ d₂ h₂ hname
  rcases List.mem_append.mp h₁ with h₁ | h₁ <;> rcases List.mem_append.mp h₂ with h₂ | h₂
  · exact h d₁ h₁ d₂ h₂ hname
  · rw [List.mem_singleton.mp h₂] at hname ⊢
    exact hsame d₁ h₁ hname
  · rw [List.mem_singleton.mp h₁] at hname ⊢
    obtain ⟨hlocks, hmulti⟩ := hsame d₂ h₂ hname.symm
    exact ⟨hlocks.symm, hmulti.symm⟩
  · rw [List.mem_singleton.mp h₁, List.mem_singleton.mp h₂]
    exact ⟨rfl, rfl⟩

/-- In front of the first contradiction nothing contradicts. -/
theorem Consistent.not_contradicts (h : Consistent before) (after : List TypeDecl)
    (hd : d ∈ before) : ¬ Contradicts (before ++ after) d := by
  rintro ⟨first, hfirst, hnot⟩
  obtain ⟨first', hfirst'⟩ := exists_first? hd
  rw [first?_append hfirst' after, Option.some_inj] at hfirst
  subst hfirst
  obtain ⟨hmem, hname⟩ := mem_of_first? hfirst'
  exact hnot (h first' hmem d hd hname)

end TypeDecl

namespace Service

open TypeDecl

variable {s : Service} {ds : List TypeDecl} {d : TypeDecl} {t : String}

/-- A service has the types of a list, as they were declared first, and no
locks yet. -/
structure Registers (s : Service) (ds : List TypeDecl) : Prop where
  get? : ∀ t, s.blocks.get? t = (first? ds t).map TypeDecl.block
  ascending : s.blocks.Ascending

theorem registers_nil : Registers {} [] := ⟨fun _ => rfl, Table.ascending_empty⟩

/-- A declaration within bounds is registered, unless its name is taken. -/
theorem createResource_of_valid (s : Service) (h : d.Valid) :
    s.createResource d = match s.blocks.get? d.name with
      | some b =>
        if b.maxLocks = d.maxLocks ∧ b.allowMulti = d.allowMulti then .ok s
        else .error (.conflictingDefinition d.name b.maxLocks b.allowMulti)
      | none => .ok { s with blocks := s.blocks.insert d.name d.block } := by
  have hbounds : ¬ (d.maxLocks = 0 ∨ maxPermits < d.maxLocks) := by
    obtain ⟨hpos, hle⟩ := h
    omega
  unfold createResource
  rw [if_neg hbounds]
  rfl

/-- A name that is new is registered. -/
theorem Registers.createResource_new (h : s.Registers ds) (hd : d.Valid)
    (hnew : first? ds d.name = none) :
    ∃ s', s.createResource d = .ok s' ∧ s'.Registers (ds ++ [d]) := by
  have hget := h.get? d.name
  rw [hnew, Option.map_none] at hget
  refine ⟨{ s with blocks := s.blocks.insert d.name d.block }, ?_, fun t => ?_, ?_⟩
  · rw [createResource_of_valid s hd, hget]
  · rw [Table.get?_insert, first?_concat]
    split
    · rename_i ht
      rw [ht, hnew]
      rfl
    · rw [Option.or_none]
      exact h.get? t
  · exact Table.ascending_insert h.ascending _ _

/-- A name that is taken is not registered again. What comes of that depends
on whether the first declaration of the name says the same. -/
theorem Registers.createResource_taken (h : s.Registers ds) (hd : d.Valid) {first : TypeDecl}
    (hfirst : first? ds d.name = some first) :
    (first.Agrees d → s.createResource d = .ok s ∧ s.Registers (ds ++ [d])) ∧
      (¬ first.Agrees d → s.createResource d
        = .error (.conflictingDefinition d.name first.maxLocks first.allowMulti)) := by
  have hget := h.get? d.name
  rw [hfirst, Option.map_some] at hget
  have hcreate := createResource_of_valid s hd
  rw [hget] at hcreate
  refine ⟨fun hagrees => ⟨hcreate.trans (if_pos hagrees), fun t => ?_, h.ascending⟩,
    fun hnot => hcreate.trans (if_neg hnot)⟩
  rw [h.get? t, first?_concat]
  split
  · rename_i ht
    rw [ht, hfirst, Option.some_or]
  · rw [Option.or_none]

/-- The last declaration of a list is registered after the others. -/
theorem ofDecls_concat (ds : List TypeDecl) (d : TypeDecl) :
    ofDecls (ds ++ [d]) = (ofDecls ds).bind fun s => s.createResource d := by
  unfold ofDecls
  rw [List.foldlM_append]
  cases ds.foldlM createResource {} with
  | error e => rfl
  | ok s =>
    show List.foldlM createResource s [d] = s.createResource d
    rw [List.foldlM_cons]
    exact bind_pure (s.createResource d)

/-- A list of declarations within bounds is registered as a whole, or ends at
the first one that contradicts an earlier one. The induction is on the last
declaration, as the list is registered from the front. -/
theorem ofDecls_cases (h : ∀ d ∈ ds, d.Valid) :
    (Consistent ds ∧ ∃ s, ofDecls ds = .ok s ∧ s.Registers ds) ∨
      ∃ before d after first, ds = before ++ d :: after ∧ Consistent before ∧
        first? before d.name = some first ∧ ¬ first.Agrees d ∧
        ofDecls ds = .error (.conflictingDefinition d.name first.maxLocks first.allowMulti) := by
  induction ds using List.reverseRecOn with
  | nil => exact .inl ⟨fun d hd => absurd hd List.not_mem_nil, {}, rfl, registers_nil⟩
  | append_singleton ds d ih =>
    have hd : d.Valid := h d (List.mem_append_right _ (List.mem_singleton_self d))
    rcases ih fun d' hd' => h d' (List.mem_append_left _ hd') with
      ⟨hconsistent, s, hs, hregisters⟩ |
        ⟨before, d', after, first, rfl, hbefore, hfirst, hnot, herror⟩
    · have hconcat : ofDecls (ds ++ [d]) = s.createResource d := by
        rw [ofDecls_concat, hs]
        rfl
      rw [hconcat]
      cases hfirst : first? ds d.name with
      | none =>
        refine .inl ⟨hconsistent.concat fun first hf => ?_, hregisters.createResource_new hd hfirst⟩
        rw [hfirst] at hf
        cases hf
      | some first =>
        obtain ⟨hsame, hother⟩ := hregisters.createResource_taken hd hfirst
        by_cases hagrees : first.Agrees d
        · refine .inl ⟨hconsistent.concat fun first' hf => ?_, s, hsame hagrees⟩
          rw [hfirst] at hf
          cases hf
          exact hagrees
        · exact .inr ⟨ds, d, [], first, rfl, hconsistent, hfirst, hagrees, hother hagrees⟩
    · refine .inr ⟨before, d', after ++ [d], first, ?_, hbefore, hfirst, hnot, ?_⟩
      · rw [List.append_assoc, List.cons_append]
      · rw [ofDecls_concat, herror]
        rfl

/-- The types of a service are the names of the declarations that it was made of. -/
theorem Registers.mem_resourceTypes_iff (h : s.Registers ds) :
    t ∈ s.resourceTypes ↔ ∃ d ∈ ds, d.name = t := by
  rw [resourceTypes, Table.mem_keys_iff h.ascending, h.get? t]
  constructor
  · rintro ⟨b, hb⟩
    obtain ⟨first, hfirst, -⟩ := Option.map_eq_some_iff.mp hb
    exact ⟨first, mem_of_first? hfirst⟩
  · rintro ⟨d, hd, rfl⟩
    obtain ⟨first, hfirst⟩ := exists_first? hd
    exact ⟨first.block, by rw [hfirst, Option.map_some]⟩

/-- Where all declarations of a name say the same, the type is as any of them says. -/
theorem Registers.get?_of_mem (h : s.Registers ds) (hconsistent : Consistent ds) (hd : d ∈ ds) :
    s.blocks.get? d.name = some d.block := by
  obtain ⟨first, hfirst⟩ := exists_first? hd
  obtain ⟨hmem, hname⟩ := mem_of_first? hfirst
  obtain ⟨hlocks, hmulti⟩ := hconsistent first hmem d hd hname
  rw [h.get? d.name, hfirst, Option.map_some, TypeDecl.block, TypeDecl.block, hname, hlocks, hmulti]

/-- What comes of the declarations of any text. Each of them would be
registered on its own. Together they make a service if and only if no name is
declared in two ways. The service then has a type for each name, as declared,
and otherwise the error is about the first declaration that says something
else than the first one of its name, and says what that one says. -/
theorem ofDecls_parseAll (raw : String) :
    (∀ d ∈ parseAll raw, ∃ s, createResource {} d = .ok s) ∧
      (∀ t, ofDecls (parseAll raw) ≠ .error (.invalidMaxLocks t)) ∧
      ((∃ s, ofDecls (parseAll raw) = .ok s) ↔ Consistent (parseAll raw)) ∧
      (Consistent (parseAll raw) → ∃ s, ofDecls (parseAll raw) = .ok s ∧
        s.resourceTypes.Pairwise (· < ·) ∧
        (∀ t, t ∈ s.resourceTypes ↔ ∃ d ∈ parseAll raw, d.name = t) ∧
        ∀ d ∈ parseAll raw, s.blocks.get? d.name = some d.block) ∧
      (¬ Consistent (parseAll raw) → ∃ before d after first, parseAll raw = before ++ d :: after ∧
        (∀ d' ∈ before, ¬ Contradicts (parseAll raw) d') ∧
        first? (parseAll raw) d.name = some first ∧ ¬ first.Agrees d ∧
        ofDecls (parseAll raw)
          = .error (.conflictingDefinition d.name first.maxLocks first.allowMulti)) := by
  have hvalid : ∀ d ∈ parseAll raw, d.Valid := fun d hd => valid_of_mem_parseAll hd
  -- Nothing else of the text matters.
  generalize parseAll raw = ds at hvalid ⊢
  have halone : ∀ d ∈ ds, ∃ s, createResource {} d = .ok s := by
    intro d hd
    obtain ⟨s, hs, -⟩ := registers_nil.createResource_new (hvalid d hd) rfl
    exact ⟨s, hs⟩
  rcases ofDecls_cases hvalid with
    ⟨hconsistent, s, hs, hregisters⟩ | ⟨before, d, after, first, heq, hbefore, hfirst, hnot, herror⟩
  · have hresult : ∃ s, ofDecls ds = .ok s := ⟨s, hs⟩
    refine ⟨halone, fun t ht => ?_, iff_of_true hresult hconsistent, fun _ => ?_,
      fun h => absurd hconsistent h⟩
    · rw [hs] at ht
      cases ht
    · exact ⟨s, hs, hregisters.ascending.keys, fun t => hregisters.mem_resourceTypes_iff,
        fun d hd => hregisters.get?_of_mem hconsistent hd⟩
  · have hcontradicts : first? ds d.name = some first := by
      rw [heq]
      exact first?_append hfirst _
    have hinconsistent : ¬ Consistent ds := by
      intro h
      obtain ⟨hmem, hname⟩ := mem_of_first? hcontradicts
      exact hnot (h first hmem d (by simp [heq]) hname)
    have hnone : ¬ ∃ s, ofDecls ds = .ok s := by
      rintro ⟨s, hs⟩
      rw [hs] at herror
      cases herror
    refine ⟨halone, fun t ht => ?_, iff_of_false hnone hinconsistent,
      fun h => absurd h hinconsistent, fun _ => ?_⟩
    · rw [ht] at herror
      cases herror
    · refine ⟨before, d, after, first, heq, fun d' hd' => ?_, hcontradicts, hnot, herror⟩
      rw [heq]
      exact hbefore.not_contradicts _ hd'

end Service

end Backplane.Lock
