import Backplane.Proofs.Lock.Run
import Mathlib.Data.String.Basic

/-!
# `Backplane.Proofs.Lock.Service`: what an operation does to a service

A service is `Sound` if its locks are in order and its calls and the
queues of the locks agree. An operation changes a service in one of three
ways: a new resource type is declared, locks change while no call runs
(`Steady`), or one call runs (`Ran`). The main statements:

* `Sound.declared`, `Sound.steady`, `Sound.ran`: each way keeps a service
  sound.
* `createResource_cases`: a declaration that succeeds was known or adds a
  type.

Which other operation takes which way is said in
`Backplane.Proofs.Lock.Operation`.
-/

set_option autoImplicit false

namespace Backplane.Lock

open Relation (ReflTransGen)

/-! ### The locks of one type -/

namespace Block

/-- The locks of a type in order. -/
structure Sound (b : Block) : Prop where
  pos : 1 ≤ b.maxLocks
  le_maxPermits : b.maxLocks ≤ maxPermits
  ascending : b.items.Ascending
  item : ∀ x, (b.item x).Sound b.maxLocks

/-- Each lock of a type has been moved. -/
structure Moved (revocable : Item → Users → Prop) (b b' : Block) : Prop where
  same : SameType b b'
  moves : ∀ x, ReflTransGen (Item.Move b.allowMulti revocable) (b.item x) (b'.item x)

theorem Moved.sound {revocable : Item → Users → Prop} {b b' : Block} (hm : Moved revocable b b')
    (h : b.Sound) : b'.Sound := by
  have hmax := hm.same.maxLocks_eq
  refine ⟨hmax ▸ h.pos, hmax ▸ h.le_maxPermits, hm.same.ascending h.ascending, fun x => ?_⟩
  rw [hmax]
  exact Item.sound_of_moves (hm.moves x) (h.item x)

end Block

/-- A lock changes while no call runs. On a type for single owners nobody
becomes an owner, and only the users that `freed` names cease to be one. On
a type with shared grants no grant ends, or all do. -/
structure Item.Steady (shared : Bool) (freed : Int → Prop) (i j : Item) : Prop where
  moves : ∀ revocable, ReflTransGen (Item.Move shared revocable) i j
  queue : ∀ n, n ∈ j.queue ↔ n ∈ i.queue
  ended : shared = true →
    (j.owners = i.owners ∧ j.held = i.held) ∨ (j.owners = ∅ ∧ j.held = 0)
  owners : shared = false → ∀ u, u ∈ j.owners → u ∈ i.owners
  freed : shared = false → ∀ u, u ∈ i.owners → u ∈ j.owners ∨ freed u

namespace Item

variable {shared : Bool} {freed : Int → Prop}

theorem Steady.refl (i : Item) : Steady shared freed i i :=
  ⟨fun _ => .refl, fun _ => Iff.rfl, fun _ => .inl ⟨rfl, rfl⟩, fun _ _ h => h,
    fun _ _ h => .inl h⟩

theorem Steady.trans {i j k : Item} (h : Steady shared freed i j) (h' : Steady shared freed j k) :
    Steady shared freed i k := by
  refine ⟨fun revocable => (h.moves revocable).trans (h'.moves revocable), fun n => ?_,
    fun hshared => ?_, fun hsingle u hu => h.owners hsingle u (h'.owners hsingle u hu),
    fun hsingle u hu => ?_⟩
  · rw [h'.queue n, h.queue n]
  · rcases h'.ended hshared with ⟨howners, hheld⟩ | hnone
    · rw [howners, hheld]
      exact h.ended hshared
    · exact .inr hnone
  · rcases h.freed hsingle u hu with hu | hfreed
    · exact h'.freed hsingle u hu
    · exact .inr hfreed

/-- It does not matter which users are named in vain. -/
theorem Steady.mono {freed' : Int → Prop} {i j : Item} (h : Steady shared freed i j)
    (hle : ∀ u, freed u → freed' u) : Steady shared freed' i j :=
  { h with freed := fun hsingle u hu => (h.freed hsingle u hu).imp_right (hle u) }

end Item

namespace Block

/-- The locks of a type change while no call runs; `freed` names the users
who may cease to be owners, with the id. -/
structure Steady (freed : Int → Int → Prop) (b b' : Block) : Prop where
  same : SameType b b'
  item : ∀ x, (b.item x).Steady b.allowMulti (freed x) (b'.item x)

variable {freed : Int → Int → Prop} {b b' : Block}

theorem Steady.refl (freed : Int → Int → Prop) (b : Block) : Steady freed b b :=
  ⟨SameType.refl b, fun _ => .refl _⟩

theorem Steady.trans {b₁ b₂ b₃ : Block} (h : Steady freed b₁ b₂) (h' : Steady freed b₂ b₃) :
    Steady freed b₁ b₃ := by
  refine ⟨h.same.trans h'.same, fun x => ?_⟩
  have hlater := h'.item x
  rw [h.same.allowMulti_eq] at hlater
  exact (h.item x).trans hlater

theorem Steady.mono {freed' : Int → Int → Prop} (h : Steady freed b b')
    (hle : ∀ x u, freed x u → freed' x u) : Steady freed' b b' :=
  { h with item := fun x => (h.item x).mono (hle x) }

/-- One lock changes and the others are left alone. -/
theorem steady_setItem {id : Int} {j : Item}
    (h : (b.item id).Steady b.allowMulti (freed id) j) : b.Steady freed (b.setItem id j) := by
  refine ⟨sameType_setItem b id j, fun x => ?_⟩
  rw [item_setItem]
  split
  · rename_i hx
    rw [hx]
    exact h
  · exact .refl _

end Block

/-- What a service knows of a call that stands somewhere. -/
def Progress.call? : Progress → Option Call
  | .waiting c => some c
  | .done _ => none

namespace Service

/-! ### Services in order -/

/-- A call that the service can let run: it waits for something, its ids
ascend, and its users fit its type. -/
structure Admits (s : Service) (c : Call) : Prop where
  ids_ne_nil : c.ids ≠ []
  order : (c.taken ++ c.ids).Pairwise (· < ·)
  fits : ∃ b, s.blocks.get? c.resourceType = some b ∧ Fits b.allowMulti c.users

/-- A service in order. The queues show exactly the calls under way, each
in the queue of the first of its ids. -/
structure Sound (s : Service) : Prop where
  blocks_ascending : s.blocks.Ascending
  calls_ascending : s.calls.Ascending
  name_eq : ∀ {t b}, s.blocks.get? t = some b → b.name = t
  block : ∀ {t b}, s.blocks.get? t = some b → b.Sound
  call : ∀ {n c}, s.calls.get? n = some c → s.Admits c
  place : ∀ {t b}, s.blocks.get? t = some b → ∀ x n, n ∈ (b.item x).queue ↔
    ∃ c, s.calls.get? n = some c ∧ c.resourceType = t ∧ c.ids.head? = some x

/-- A service without types and calls is in order. -/
theorem sound_empty : Sound {} where
  blocks_ascending := Table.ascending_empty
  calls_ascending := Table.ascending_empty
  name_eq h := nomatch h
  block h := nomatch h
  call h := nomatch h
  place h := nomatch h

/-! ### A new type -/

/-- A type is declared that was not there. -/
structure Declared (d : TypeDecl) (s s' : Service) : Prop where
  pos : 1 ≤ d.maxLocks
  le_maxPermits : d.maxLocks ≤ maxPermits
  absent : s.blocks.get? d.name = none
  blocks_eq : s'.blocks = s.blocks.insert d.name ⟨d.name, d.maxLocks, d.allowMulti, ∅⟩
  calls_eq : s'.calls = s.calls

/-- A declaration that succeeds was known or adds a type. -/
theorem createResource_cases {s s' : Service} {d : TypeDecl}
    (h : s.createResource d = .ok s') : s' = s ∨ Declared d s s' := by
  simp only [createResource] at h
  split at h
  · cases h
  · rename_i hbounds
    rw [not_or] at hbounds
    split at h
    · split at h
      · cases h
        exact .inl rfl
      · cases h
    · rename_i habsent
      cases h
      exact .inr ⟨Nat.pos_of_ne_zero hbounds.1, Nat.not_lt.mp hbounds.2, habsent, rfl, rfl⟩

/-- What a look-up finds after a declaration. -/
theorem Declared.get? {d : TypeDecl} {s s' : Service} (h : Declared d s s') (t : String) :
    s'.blocks.get? t
      = if t = d.name then some ⟨d.name, d.maxLocks, d.allowMulti, ∅⟩ else s.blocks.get? t := by
  rw [h.blocks_eq, Table.get?_insert]

/-- A type that was there stays as it was. -/
theorem Declared.kept {d : TypeDecl} {s s' : Service} (h : Declared d s s') {t : String} {b : Block}
    (hb : s.blocks.get? t = some b) : s'.blocks.get? t = some b := by
  rw [h.get? t, if_neg, hb]
  intro heq
  rw [heq, h.absent] at hb
  cases hb

/-- A declaration keeps a service in order. -/
theorem Sound.declared {d : TypeDecl} {s s' : Service} (h : s.Sound) (hd : Declared d s s') :
    s'.Sound := by
  -- A type that is there afterwards is the new one, or was there before.
  have hlater : ∀ {t b}, s'.blocks.get? t = some b →
      (t = d.name ∧ b = ⟨d.name, d.maxLocks, d.allowMulti, ∅⟩) ∨ s.blocks.get? t = some b := by
    intro t b hb
    rw [hd.get? t] at hb
    split at hb
    · rename_i ht
      exact .inl ⟨ht, (Option.some.inj hb).symm⟩
    · exact .inr hb
  refine ⟨?_, ?_, ?_, ?_, ?_, ?_⟩
  · rw [hd.blocks_eq]
    exact Table.ascending_insert h.blocks_ascending _ _
  · rw [hd.calls_eq]
    exact h.calls_ascending
  · intro t b hb
    rcases hlater hb with ⟨rfl, rfl⟩ | hb
    · rfl
    · exact h.name_eq hb
  · intro t b hb
    rcases hlater hb with ⟨rfl, rfl⟩ | hb
    · exact ⟨hd.pos, hd.le_maxPermits, Table.ascending_empty, fun _ => Item.sound_fresh _⟩
    · exact h.block hb
  · intro n c hc
    rw [hd.calls_eq] at hc
    obtain ⟨hids, horder, b, hb, hfits⟩ := h.call hc
    exact ⟨hids, horder, b, hd.kept hb, hfits⟩
  · intro t b hb x n
    rw [hd.calls_eq]
    rcases hlater hb with ⟨rfl, rfl⟩ | hb
    · -- No call can wait for a type that was not there.
      refine ⟨fun hn => (List.not_mem_nil hn).elim, ?_⟩
      rintro ⟨c, hc, htype, _⟩
      obtain ⟨b, hb, _⟩ := (h.call hc).fits
      rw [htype, hd.absent] at hb
      cases hb
    · exact h.place hb x n

/-! ### Changes while no call runs -/

/-- Locks change while no call runs; `freed` names the users who may cease
to be owners, with the type and the id. -/
structure Steady (freed : String → Int → Int → Prop) (s s' : Service) : Prop where
  ascending : s.blocks.Ascending → s'.blocks.Ascending
  calls_eq : s'.calls = s.calls
  absent : ∀ {t}, s.blocks.get? t = none → s'.blocks.get? t = none
  kept : ∀ {t b}, s.blocks.get? t = some b →
    ∃ b', s'.blocks.get? t = some b' ∧ b.Steady (freed t) b'

variable {freed : String → Int → Int → Prop} {s s' : Service}

theorem Steady.refl (freed : String → Int → Int → Prop) (s : Service) : Steady freed s s :=
  ⟨id, rfl, id, fun {_ b} hb => ⟨b, hb, Block.Steady.refl _ b⟩⟩

theorem Steady.trans {s₁ s₂ s₃ : Service} (h : Steady freed s₁ s₂) (h' : Steady freed s₂ s₃) :
    Steady freed s₁ s₃ := by
  refine ⟨fun ha => h'.ascending (h.ascending ha), h'.calls_eq.trans h.calls_eq,
    fun ha => h'.absent (h.absent ha), fun {t b} hb => ?_⟩
  obtain ⟨b₂, hb₂, hsteady⟩ := h.kept hb
  obtain ⟨b₃, hb₃, hsteady'⟩ := h'.kept hb₂
  exact ⟨b₃, hb₃, hsteady.trans hsteady'⟩

theorem Steady.mono {freed' : String → Int → Int → Prop} (h : Steady freed s s')
    (hle : ∀ t x u, freed t x u → freed' t x u) : Steady freed' s s' := by
  refine { h with kept := fun {t b} hb => ?_ }
  obtain ⟨b', hb', hsteady⟩ := h.kept hb
  exact ⟨b', hb', hsteady.mono (hle t)⟩

/-- The locks that are there afterwards were there before. -/
theorem Steady.of_get? (h : Steady freed s s') {t : String} {b' : Block}
    (hb' : s'.blocks.get? t = some b') :
    ∃ b, s.blocks.get? t = some b ∧ b.Steady (freed t) b' := by
  cases hb : s.blocks.get? t with
  | none =>
    rw [h.absent hb] at hb'
    cases hb'
  | some b =>
    obtain ⟨b'', hb'', hsteady⟩ := h.kept hb
    rw [hb''] at hb'
    cases hb'
    exact ⟨b, rfl, hsteady⟩

/-- A change while no call runs keeps a service in order. -/
theorem Sound.steady (h : s.Sound) (hs : Steady freed s s') : s'.Sound := by
  refine ⟨hs.ascending h.blocks_ascending, hs.calls_eq ▸ h.calls_ascending, ?_, ?_, ?_, ?_⟩
  · intro t b' hb'
    obtain ⟨b, hb, hsteady⟩ := hs.of_get? hb'
    exact hsteady.same.name_eq.trans (h.name_eq hb)
  · intro t b' hb'
    obtain ⟨b, hb, hsteady⟩ := hs.of_get? hb'
    exact Block.Moved.sound ⟨hsteady.same, fun x => (hsteady.item x).moves fun _ _ => True⟩
      (h.block hb)
  · intro n c hc
    rw [hs.calls_eq] at hc
    obtain ⟨hids, horder, b, hb, hfits⟩ := h.call hc
    obtain ⟨b', hb', hsteady⟩ := hs.kept hb
    exact ⟨hids, horder, b', hb', hsteady.same.allowMulti_eq ▸ hfits⟩
  · intro t b' hb' x n
    obtain ⟨b, hb, hsteady⟩ := hs.of_get? hb'
    rw [(hsteady.item x).queue n, h.place hb x n, hs.calls_eq]

/-- Only one type is written to. -/
theorem steady_insert {t : String} {b b' : Block} (hb : s.blocks.get? t = some b)
    (hsteady : b.Steady (freed t) b') :
    Steady freed s { s with blocks := s.blocks.insert t b' } := by
  refine ⟨fun ha => Table.ascending_insert ha _ _, rfl, fun {t'} ha => ?_, fun {t' b₁} hb₁ => ?_⟩
  · show (s.blocks.insert t b').get? t' = none
    rw [Table.get?_insert, if_neg, ha]
    intro heq
    rw [heq, hb] at ha
    cases ha
  · show ∃ b₂, (s.blocks.insert t b').get? t' = some b₂ ∧ _
    rw [Table.get?_insert]
    split
    · rename_i heq
      subst heq
      rw [hb] at hb₁
      cases hb₁
      exact ⟨b', rfl, hsteady⟩
    · exact ⟨b₁, hb₁, Block.Steady.refl _ b₁⟩

/-! ### The run of a call -/

/-- The calls of a service after one of them has run. -/
def callsAfter (s : Service) (name : CallId) : Progress → Table CallId Call
  | .waiting c => s.calls.insert name c
  | .done _ => s.calls.erase name

/-- The call `c` of the name `name` runs: on the locks `b` of its type,
which are `b'` afterwards. -/
structure Ran (name : CallId) (now : Nat) (s : Service) (b : Block) (c : Call) (p : Progress)
    (s' : Service) (b' : Block) : Prop where
  found : s.blocks.get? c.resourceType = some b
  ready : b.Ready name c
  own : ∀ {c'}, s.calls.get? name = some c' → c' = c
  run : b.Run name now c p b'
  blocks_eq : s'.blocks = s.blocks.insert c.resourceType b'
  calls_eq : s'.calls = s.callsAfter name p

variable {name : CallId} {now : Nat} {b b' : Block} {c : Call} {p : Progress}

/-- The locks that a look-up finds after a run. -/
theorem Ran.get? (h : Ran name now s b c p s' b') (t : String) :
    s'.blocks.get? t = if t = c.resourceType then some b' else s.blocks.get? t := by
  rw [h.blocks_eq, Table.get?_insert]

/-- The calls that a look-up finds after a run. -/
theorem Ran.call? (h : Ran name now s b c p s' b') (n : CallId) :
    s'.calls.get? n = if n = name then p.call? else s.calls.get? n := by
  rw [h.calls_eq]
  cases p with
  | waiting c' => exact Table.get?_insert s.calls name n c'
  | done granted => exact Table.get?_erase s.calls name n

/-- A call that the service has, or that is new to it, is ready to run. -/
theorem Sound.ready (h : s.Sound) (hb : s.blocks.get? c.resourceType = some b)
    (hfits : Fits b.allowMulti c.users) (horder : (c.taken ++ c.ids).Pairwise (· < ·))
    (hown : ∀ c', s.calls.get? name = some c' → c' = c) : b.Ready name c := by
  refine ⟨hfits, (h.block hb).item, horder, fun x hx => ?_⟩
  obtain ⟨c', hc', _, hhead⟩ := (h.place hb x name).mp hx
  rw [← hown c' hc']
  exact hhead

/-- A run moves the locks of one type. -/
theorem Ran.moved (h : Ran name now s b c p s' b') : b.Moved (fun _ _ => True) b' :=
  ⟨h.run.sameType, h.run.moves h.ready (fun _ _ => trivial) fun _ _ _ => trivial⟩

/-- A run leaves every type as it was declared. -/
theorem Ran.kept (h : Ran name now s b c p s' b') {t : String} {b₁ : Block}
    (hb₁ : s.blocks.get? t = some b₁) :
    ∃ b₂, s'.blocks.get? t = some b₂ ∧ b₂.allowMulti = b₁.allowMulti := by
  rw [h.get? t]
  split
  · rename_i ht
    rw [ht, h.found] at hb₁
    cases hb₁
    exact ⟨b', rfl, h.run.sameType.allowMulti_eq⟩
  · exact ⟨b₁, hb₁, rfl⟩

/-- The queues of the type of a call, after the call has run. -/
theorem Ran.place (h : s.Sound) (hr : Ran name now s b c p s' b') (x : Int) (n : CallId) :
    n ∈ (b'.item x).queue ↔ ∃ c', s'.calls.get? n = some c' ∧
      c'.resourceType = c.resourceType ∧ c'.ids.head? = some x := by
  rw [hr.run.queue hr.ready x n, hr.call? n]
  by_cases hn : n = name
  · rw [if_pos hn]
    constructor
    · rintro (⟨_, hne⟩ | ⟨_, c', hp, hhead⟩)
      · exact absurd hn hne
      · obtain ⟨htype, _⟩ := hr.run.call hp
        exact ⟨c', by rw [hp, Progress.call?], htype, hhead⟩
    · rintro ⟨c', hc', _, hhead⟩
      cases p with
      | waiting c'' =>
        cases hc'
        exact .inr ⟨hn, c', rfl, hhead⟩
      | done granted => cases hc'
  · rw [if_neg hn, h.place hr.found x n]
    exact ⟨fun hd => (hd.resolve_right fun hd => hn hd.1).1, fun hd => .inl ⟨hd, hn⟩⟩

/-- A run keeps a service in order. -/
theorem Sound.ran (h : s.Sound) (hr : Ran name now s b c p s' b') : s'.Sound := by
  refine ⟨?_, ?_, ?_, ?_, ?_, ?_⟩
  · rw [hr.blocks_eq]
    exact Table.ascending_insert h.blocks_ascending _ _
  · rw [hr.calls_eq]
    cases p with
    | waiting c' => exact Table.ascending_insert h.calls_ascending _ _
    | done granted => exact h.calls_ascending.erase _
  · intro t b₁ hb₁
    rw [hr.get? t] at hb₁
    split at hb₁
    · rename_i ht
      cases hb₁
      rw [hr.moved.same.name_eq, ht]
      exact h.name_eq hr.found
    · exact h.name_eq hb₁
  · intro t b₁ hb₁
    rw [hr.get? t] at hb₁
    split at hb₁
    · cases hb₁
      exact hr.moved.sound (h.block hr.found)
    · exact h.block hb₁
  · intro n c₁ hc₁
    rw [hr.call? n] at hc₁
    split at hc₁
    · cases p with
      | waiting c' =>
        -- The call that has run waits again, for some of the ids of before.
        cases hc₁
        obtain ⟨htype, husers, _, hids, hsub, _⟩ := hr.run.call rfl
        obtain ⟨b₂, hb₂, hmulti⟩ := hr.kept hr.found
        refine ⟨hids, hr.ready.order.sublist hsub, b₂, htype ▸ hb₂, ?_⟩
        rw [hmulti, husers]
        exact hr.ready.fits
      | done granted => cases hc₁
    · obtain ⟨hids, horder, b₁, hb₁, hfits⟩ := h.call hc₁
      obtain ⟨b₂, hb₂, hmulti⟩ := hr.kept hb₁
      exact ⟨hids, horder, b₂, hb₂, hmulti ▸ hfits⟩
  · intro t b₁ hb₁ x n
    rw [hr.get? t] at hb₁
    split at hb₁
    · rename_i ht
      cases hb₁
      rw [ht]
      exact hr.place h x n
    · rename_i ht
      rw [h.place hb₁ x n, hr.call? n]
      -- The call that has run was not in a queue of this type, and is not now.
      split
      · rename_i hn
        constructor
        · rintro ⟨c₁, hc₁, htype, _⟩
          rw [hn] at hc₁
          rw [hr.own hc₁] at htype
          exact absurd htype.symm ht
        · rintro ⟨c₁, hc₁, htype, _⟩
          cases p with
          | waiting c' =>
            cases hc₁
            rw [(hr.run.call rfl).1] at htype
            exact absurd htype.symm ht
          | done granted => cases hc₁
      · exact Iff.rfl

end Service

end Backplane.Lock
