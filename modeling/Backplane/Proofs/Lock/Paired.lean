import Backplane.Proofs.Lock.Operation

/-!
# `Backplane.Proofs.Lock.Paired`: two services with the same types

To compare two services, their types are compared one by one: a type is
missing in both, or there is one in each and the two are related. The
relation is a parameter. Whoever compares services says what it is to be,
and shows what each operation does to the locks of one type; the rest is
the same for all and is here. The main statements:

* `Paired.resolve_cases`: whoever asks is refused on both sides for the
  same reason, or on neither.
* `Paired.insert`, `Paired.insert_left`: locks of one type are written to
  on both sides, or on one.
* `Paired.createResource_cases`, `Paired.collectGarbage`: types are declared,
  and locks collected, on both sides.
-/

set_option autoImplicit false

namespace Backplane.Lock

/-- Two outcomes with the same result, which wake the same calls, and leave
states that are alike. -/
structure Agree {α σ : Type} (alike : σ → σ → Prop) (r r' : α × σ × List CallId) : Prop where
  result : r.1 = r'.1
  state : alike r.2.1 r'.2.1
  woken : r.2.2 = r'.2.2

/-- Two types with the same declaration. -/
structure Block.SameDecl (b b' : Block) : Prop where
  name_eq : b.name = b'.name
  maxLocks_eq : b.maxLocks = b'.maxLocks
  allowMulti_eq : b.allowMulti = b'.allowMulti

theorem Block.SameDecl.refl (b : Block) : b.SameDecl b := ⟨rfl, rfl, rfl⟩

namespace Service

/-- A type is missing in both services, or there is one in each, and their
locks are related. -/
def Paired (rel : String → Block → Block → Prop) (s s' : Service) : Prop :=
  ∀ t, (s.blocks.get? t = none ∧ s'.blocks.get? t = none) ∨
    ∃ b b', s.blocks.get? t = some b ∧ s'.blocks.get? t = some b' ∧ rel t b b'

variable {rel : String → Block → Block → Prop} {s s' : Service} {t : String} {b b' : Block}

theorem paired_empty (rel : String → Block → Block → Prop) : Paired rel {} {} :=
  fun _ => .inl ⟨rfl, rfl⟩

theorem Paired.of_get? (h : Paired rel s s') (hb : s.blocks.get? t = some b) :
    ∃ b', s'.blocks.get? t = some b' ∧ rel t b b' := by
  rcases h t with ⟨ha, _⟩ | ⟨b₁, b', hb₁, hb', hrel⟩
  · rw [ha] at hb
    cases hb
  · rw [hb] at hb₁
    cases hb₁
    exact ⟨b', hb', hrel⟩

theorem Paired.of_get?_right (h : Paired rel s s') (hb' : s'.blocks.get? t = some b') :
    ∃ b, s.blocks.get? t = some b ∧ rel t b b' := by
  rcases h t with ⟨_, ha'⟩ | ⟨b, b₁, hb, hb₁, hrel⟩
  · rw [ha'] at hb'
    cases hb'
  · rw [hb'] at hb₁
    cases hb₁
    exact ⟨b, hb, hrel⟩

/-- The locks of one type are written to on both sides. -/
theorem Paired.insert (h : Paired rel s s') (hrel : rel t b b') (calls calls' : Table CallId Call) :
    Paired rel { blocks := s.blocks.insert t b, calls }
      { blocks := s'.blocks.insert t b', calls := calls' } := by
  intro t₁
  simp only [Table.get?_insert]
  split
  · rename_i ht
    rw [ht]
    exact .inr ⟨b, b', rfl, rfl, hrel⟩
  · exact h t₁

/-- The locks of one type are written to on the left. -/
theorem Paired.insert_left (h : Paired rel s s') (hb' : s'.blocks.get? t = some b')
    (hrel : rel t b b') (calls : Table CallId Call) :
    Paired rel { blocks := s.blocks.insert t b, calls } s' := by
  intro t₁
  simp only [Table.get?_insert]
  split
  · rename_i ht
    rw [ht]
    exact .inr ⟨b, b', rfl, hb', hrel⟩
  · exact h t₁

/-! ### The same question on both sides -/

/-- A type is missing on both sides, or on neither. -/
theorem Paired.block_cases (h : Paired rel s s') (t : String) :
    (∃ e, s.block t = .error e ∧ s'.block t = .error e) ∨
      ∃ b b', s.block t = .ok b ∧ s'.block t = .ok b' ∧ rel t b b' := by
  unfold Service.block
  rcases h t with ⟨ha, ha'⟩ | ⟨b, b', hb, hb', hrel⟩
  · rw [ha, ha']
    exact .inl ⟨_, rfl, rfl⟩
  · rw [hb, hb']
    exact .inr ⟨b, b', rfl, rfl, hrel⟩

section

variable (hdecl : ∀ {t b b'}, rel t b b' → b.SameDecl b')
include hdecl

/-- Whoever asks is refused on both sides for the same reason, or on
neither. -/
theorem Paired.resolve_cases (h : Paired rel s s') (t : String) (p : Party) :
    (∃ e, s.resolve t p = .error e ∧ s'.resolve t p = .error e) ∨
      ∃ b b' users, s.resolve t p = .ok (b, users) ∧ s'.resolve t p = .ok (b', users) ∧
        rel t b b' := by
  cases p with
  | one u =>
    unfold resolve
    rcases h.block_cases t with ⟨e, he, he'⟩ | ⟨b, b', hb, hb', hrel⟩
    · rw [he, he']
      exact .inl ⟨e, rfl, rfl⟩
    · rw [hb, hb']
      exact .inr ⟨b, b', _, rfl, rfl, hrel⟩
  | many us =>
    unfold resolve multiBlock
    rcases h.block_cases t with ⟨e, he, he'⟩ | ⟨b, b', hb, hb', hrel⟩
    · rw [he, he']
      exact .inl ⟨e, rfl, rfl⟩
    · rw [hb, hb']
      have hmulti := (hdecl hrel).allowMulti_eq
      cases hm : b.allowMulti with
      | false =>
        rw [hm] at hmulti
        refine .inl ⟨.multiNotAllowed t, ?_, ?_⟩
        · simp only [bind, Except.bind, hm, Bool.false_eq_true, if_false, throw, throwThe,
            MonadExceptOf.throw]
        · simp only [bind, Except.bind, ← hmulti, Bool.false_eq_true, if_false, throw, throwThe,
            MonadExceptOf.throw]
      | true =>
        rw [hm] at hmulti
        simp only [bind, Except.bind, hm, ← hmulti, if_true, pure, Except.pure]
        cases userSet us with
        | error e => exact .inl ⟨e, rfl, rfl⟩
        | ok users => exact .inr ⟨b, b', users, rfl, rfl, hrel⟩

/-- A declaration is refused on both sides for the same reason, or says
nothing new on both, or adds the type to both. -/
theorem Paired.createResource_cases (h : Paired rel s s') (d : TypeDecl) :
    (∃ e, s.createResource d = .error e ∧ s'.createResource d = .error e) ∨
      (s.createResource d = .ok s ∧ s'.createResource d = .ok s') ∨
      ∃ b : Block, b = ⟨d.name, d.maxLocks, d.allowMulti, ∅⟩ ∧
        s.createResource d = .ok { s with blocks := s.blocks.insert d.name b } ∧
        s'.createResource d = .ok { s' with blocks := s'.blocks.insert d.name b } := by
  unfold Service.createResource
  split
  · exact .inl ⟨_, rfl, rfl⟩
  · rcases h d.name with ⟨ha, ha'⟩ | ⟨b, b', hb, hb', hrel⟩
    · simp only [ha, ha']
      exact .inr (.inr ⟨_, rfl, rfl, rfl⟩)
    · simp only [hb, hb', ← (hdecl hrel).maxLocks_eq, ← (hdecl hrel).allowMulti_eq]
      split
      · exact .inr (.inl ⟨rfl, rfl⟩)
      · exact .inl ⟨_, rfl, rfl⟩

end

/-- Locks are collected on both sides. -/
theorem Paired.collectGarbage (h : Paired rel s s') (hrel : ∀ {t b b'},
      s.blocks.get? t = some b → s'.blocks.get? t = some b' → rel t b b' →
      rel t (s.survivors b) (s'.survivors b')) :
    Paired rel s.collectGarbage.2 s'.collectGarbage.2 := by
  intro t
  rw [blocks_get?_collectGarbage, blocks_get?_collectGarbage]
  rcases h t with ⟨ha, ha'⟩ | ⟨b, b', hb, hb', hpair⟩
  · rw [ha, ha']
    exact .inl ⟨rfl, rfl⟩
  · rw [hb, hb']
    exact .inr ⟨_, _, rfl, rfl, hrel hb hb' hpair⟩

end Service

end Backplane.Lock
