import Backplane.Lock.Call
import Backplane.Proofs.Data.Table
import Backplane.Proofs.Lock.Item
import Mathlib.Data.List.Basic

/-!
# `Backplane.Proofs.Lock.Block`: the runs of a call

A call runs when it begins and when it is woken. Such a run has three
parts: the call leaves the queue that it was in (`Starts`), locks ids as
long as it does not have to wait (`Passes`), and stops because it is
done, gives up, or waits again (`Ends`). `Block.Run` puts the parts
together. The main statements:

* `proceed_run`: a call that begins makes such a run.
* `resume_run`: so does a call that is woken, unless it was woken for
  nothing and waits on.

What a run does to the locks is said in `Backplane.Proofs.Lock.Run`, once
for both operations.
-/

set_option autoImplicit false

namespace Backplane.Lock

open Relation (ReflTransGen)

/-- The call after grants on ids. -/
def Call.noteGrants (c : Call) (ids : List Int) : Call :=
  if c.deadline.isSome then { c with taken := c.taken ++ ids } else c

namespace Call

theorem noteGrants_nil (c : Call) : c.noteGrants [] = c := by
  unfold noteGrants
  rw [List.append_nil, ite_self]

theorem noteGrants_cons (c : Call) (id : Int) (ids : List Int) :
    c.noteGrants (id :: ids) = (c.noteGrant id).noteGrants ids := by
  unfold noteGrants noteGrant
  cases h : c.deadline.isSome with
  | true => simp [h]
  | false => simp [h]

@[simp] theorem users_noteGrants (c : Call) (ids : List Int) :
    (c.noteGrants ids).users = c.users := by
  unfold noteGrants
  split <;> rfl

@[simp] theorem resourceType_noteGrants (c : Call) (ids : List Int) :
    (c.noteGrants ids).resourceType = c.resourceType := by
  unfold noteGrants
  split <;> rfl

@[simp] theorem deadline_noteGrants (c : Call) (ids : List Int) :
    (c.noteGrants ids).deadline = c.deadline := by
  unfold noteGrants
  split <;> rfl

theorem taken_noteGrants (c : Call) (ids : List Int) :
    (c.noteGrants ids).taken = if c.deadline.isSome then c.taken ++ ids else c.taken := by
  unfold noteGrants
  split <;> rfl

@[simp] theorem noteGrants_noteGrants (c : Call) (xs ys : List Int) :
    (c.noteGrants xs).noteGrants ys = c.noteGrants (xs ++ ys) := by
  unfold noteGrants
  cases h : c.deadline.isSome with
  | true => simp [h]
  | false => simp [h]

/-- Only a call with a deadline is ever late. -/
theorem isSome_of_isLate {c : Call} {now : Nat} (h : c.isLate now = true) :
    c.deadline.isSome = true := by
  unfold isLate at h
  cases hd : c.deadline with
  | none => rw [hd] at h; cases h
  | some _ => rfl

theorem isSome_of_isLate_noteGrants {c : Call} {ids : List Int} {now : Nat}
    (h : (c.noteGrants ids).isLate now = true) : c.deadline.isSome = true := by
  have hdeadline := isSome_of_isLate h
  rwa [deadline_noteGrants] at hdeadline

end Call

namespace Block

/-! ### Blocks of one type -/

/-- Two states of the locks of one type. -/
structure SameType (b b' : Block) : Prop where
  name_eq : b'.name = b.name
  maxLocks_eq : b'.maxLocks = b.maxLocks
  allowMulti_eq : b'.allowMulti = b.allowMulti
  ascending : b.items.Ascending → b'.items.Ascending

theorem SameType.refl (b : Block) : SameType b b := ⟨rfl, rfl, rfl, id⟩

theorem SameType.trans {b₁ b₂ b₃ : Block} (h : SameType b₁ b₂) (h' : SameType b₂ b₃) :
    SameType b₁ b₃ :=
  ⟨h'.name_eq.trans h.name_eq, h'.maxLocks_eq.trans h.maxLocks_eq,
    h'.allowMulti_eq.trans h.allowMulti_eq, fun ha => h'.ascending (h.ascending ha)⟩

theorem sameType_setItem (b : Block) (id : Int) (i : Item) : SameType b (b.setItem id i) :=
  ⟨rfl, rfl, rfl, fun h => Table.ascending_insert h id i⟩

theorem item_of_get? {b : Block} {x : Int} {i : Item} (h : b.items.get? x = some i) :
    b.item x = i := by
  unfold item
  rw [h, Option.getD_some]

/-- A lock that nobody has looked at is free. -/
theorem item_of_get?_eq_none {b : Block} {x : Int} (h : b.items.get? x = none) :
    b.item x = .fresh b.maxLocks := by
  unfold item
  rw [h, Option.getD_none]

/-- A type without locks has fresh ones only. -/
theorem item_of_items_eq_empty {b : Block} (h : b.items = ∅) (x : Int) :
    b.item x = .fresh b.maxLocks :=
  item_of_get?_eq_none (by rw [h, Table.get?_empty])

theorem item_setItem (b : Block) (id x : Int) (i : Item) :
    (b.setItem id i).item x = if x = id then i else b.item x := by
  unfold item setItem
  rw [Table.get?_insert]
  split <;> rfl

theorem item_setItem_self (b : Block) (id : Int) (i : Item) : (b.setItem id i).item id = i := by
  rw [item_setItem, if_pos rfl]

theorem item_setItem_ne (b : Block) {id x : Int} (i : Item) (h : x ≠ id) :
    (b.setItem id i).item x = b.item x := by
  rw [item_setItem, if_neg h]

/-- Looking at a lock leaves all locks as they are. -/
theorem item_setItem_item (b : Block) (id x : Int) :
    (b.setItem id (b.item id)).item x = b.item x := by
  rw [item_setItem]
  split
  · rename_i h
    rw [h]
  · rfl

/-! ### Rollbacks -/

/-- The locks after a call has taken its grants back. -/
structure Undone (b : Block) (c : Call) (b' : Block) : Prop where
  same : SameType b b'
  item_eq : ∀ x, b'.item x = if x ∈ c.taken then ((b.item x).revoke c.users).1 else b.item x

/-- One step of a rollback. -/
def undoStep (users : Users) (s : Block × List CallId) (id : Int) : Block × List CallId :=
  (s.1.setItem id ((s.1.item id).revoke users).1, s.2 ++ ((s.1.item id).revoke users).2)

theorem rollBack_eq (b : Block) (c : Call) :
    b.rollBack c = c.taken.foldl (undoStep c.users) (b, []) := rfl

private theorem undoAll (users : Users) (ids : List Int) (hnodup : ids.Nodup)
    (s : Block × List CallId) :
    SameType s.1 (ids.foldl (undoStep users) s).1 ∧
      ∀ x, (ids.foldl (undoStep users) s).1.item x
        = if x ∈ ids then ((s.1.item x).revoke users).1 else s.1.item x := by
  induction ids generalizing s with
  | nil => exact ⟨SameType.refl s.1, fun x => by simp⟩
  | cons id rest ih =>
    obtain ⟨hnot, hrest⟩ := List.nodup_cons.mp hnodup
    obtain ⟨hsame, hitem⟩ := ih hrest (undoStep users s id)
    refine ⟨(sameType_setItem s.1 id _).trans hsame, fun x => ?_⟩
    rw [List.foldl_cons, hitem x]
    by_cases hx : x = id
    · -- The id does not come again, so the later steps leave its lock alone.
      subst hx
      rw [if_neg hnot, if_pos List.mem_cons_self]
      exact item_setItem_self s.1 x _
    · have hkeep : (undoStep users s id).1.item x = s.1.item x := item_setItem_ne s.1 _ hx
      simp only [hkeep, List.mem_cons, hx, false_or]

/-- A rollback takes back each grant that the call has noted, once. -/
theorem undone_rollBack (b : Block) {c : Call} (hnodup : c.taken.Nodup) :
    Undone b c (b.rollBack c).1 := by
  obtain ⟨hsame, hitem⟩ := undoAll c.users c.taken hnodup (b, [])
  rw [rollBack_eq]
  exact ⟨hsame, hitem⟩

/-- Looking at a lock first makes no difference. -/
theorem Undone.of_touched {b b' : Block} {c : Call} {id : Int}
    (h : Undone (b.setItem id (b.item id)) c b') : Undone b c b' := by
  refine ⟨(sameType_setItem b id _).trans h.same, fun x => ?_⟩
  rw [h.item_eq x, item_setItem_item]

/-! ### The three parts of a run -/

/-- How the run of a call `name` starts: which locks it finds, which ids it
has been granted by then, and which are still to be locked. -/
inductive Starts (name : CallId) (b : Block) (c : Call) : Block → List Int → List Int → Prop where
  /-- The call begins. -/
  | begins (habsent : ∀ x, name ∉ (b.item x).queue) : Starts name b c b [] c.ids
  /-- It was handed a permit, and one of its users owns the lock. -/
  | handBack {id : Int} {rest : List Int} (hids : c.ids = id :: rest)
      (hhanded : name ∈ (b.item id).handed) (howned : (b.item id).isOwnedByAny c.users = true) :
      Starts name b c (b.setItem id (((b.item id).unhand name).release 1).1) [] rest
  /-- It was handed a permit that it makes a grant. -/
  | accept {id : Int} {rest : List Int} (hids : c.ids = id :: rest)
      (hhanded : name ∈ (b.item id).handed) (hnew : (b.item id).isOwnedByAny c.users = false) :
      Starts name b c (b.setItem id (((b.item id).unhand name).grant c.users)) [id] rest
  /-- Its deadline has come while it waits. -/
  | leave {id : Int} {rest : List Int} (hids : c.ids = id :: rest)
      (hwaits : name ∉ (b.item id).handed) :
      Starts name b c (b.setItem id ((b.item id).leave name)) [] (id :: rest)

/-- A call for users locks ids without waiting: which ids, which of them
it is granted, and the locks afterwards. -/
inductive Passes (users : Users) : Block → List Int → List Int → Block → Prop where
  | nil (b : Block) : Passes users b [] [] b
  /-- One of the users is an owner already. -/
  | skip {b b' : Block} {id : Int} {ids granted : List Int}
      (howned : (b.item id).isOwnedByAny users = true)
      (rest : Passes users (b.setItem id (b.item id)) ids granted b') :
      Passes users b (id :: ids) granted b'
  /-- A permit is available. -/
  | take {b b' : Block} {id : Int} {ids granted : List Int}
      (hnew : (b.item id).isOwnedByAny users = false) (hfree : 0 < (b.item id).available)
      (rest : Passes users
        (b.setItem id ({ b.item id with available := (b.item id).available - 1 }.grant users))
        ids granted b') :
      Passes users b (id :: ids) (id :: granted) b'

/-- How the run of a call stops when certain ids are left: where it stands
then, and the locks afterwards. -/
inductive Ends (name : CallId) (now : Nat) (b : Block) (c : Call) :
    List Int → Progress → Block → Prop where
  /-- Everything is locked. -/
  | finish : Ends name now b c [] (.done true) b
  /-- The call gives up in front of an id. -/
  | giveUp {id : Int} {rest : List Int} {b' : Block} (hlate : c.isLate now = true)
      (hundone : Undone b c b') : Ends name now b c (id :: rest) (.done false) b'
  /-- The call waits for the first id that is left. -/
  | wait {id : Int} {rest : List Int} (hbusy : (b.item id).available = 0) :
      Ends name now b c (id :: rest) (.waiting { c with ids := id :: rest })
        (b.setItem id ((b.item id).enqueue name))

/-- A whole run of a call: where it stands afterwards, and the locks. -/
inductive Run (name : CallId) (now : Nat) (b : Block) (c : Call) : Progress → Block → Prop where
  | intro {b₀ b₁ b' : Block} {granted₀ granted passed rest : List Int} {p : Progress}
      (start : Starts name b c b₀ granted₀ (passed ++ rest))
      (pass : Passes c.users b₀ passed granted b₁)
      (stop : Ends name now b₁ (c.noteGrants (granted₀ ++ granted)) rest p b') :
      Run name now b c p b'

/-! ### Both operations are runs -/

/-- Locking ids one after the other passes some of them and then stops. -/
theorem proceed_cases (b : Block) (name : CallId) (c : Call) (now : Nat) (ids : List Int)
    (hnodup : (c.taken ++ ids).Nodup) :
    ∃ passed granted rest b₁, ids = passed ++ rest ∧ Passes c.users b passed granted b₁ ∧
      Ends name now b₁ (c.noteGrants granted) rest (b.proceed name c now ids).1
        (b.proceed name c now ids).2.1 := by
  induction ids generalizing b c with
  | nil => exact ⟨[], [], [], b, rfl, .nil b, by rw [Call.noteGrants_nil]; exact .finish⟩
  | cons id ids ih =>
    have hsub : (c.taken ++ ids).Sublist (c.taken ++ id :: ids) :=
      (List.Sublist.refl c.taken).append (List.sublist_cons_self id ids)
    simp only [proceed]
    split
    · -- One of the users is an owner, and the id is skipped.
      rename_i howned
      obtain ⟨passed, granted, rest, b₁, rfl, hpass, hend⟩ := ih (b.setItem id (b.item id)) c
        (hnodup.sublist hsub)
      exact ⟨id :: passed, granted, rest, b₁, rfl, .skip howned hpass, hend⟩
    · rename_i hnew
      rw [Bool.not_eq_true] at hnew
      split
      · -- A permit is available; the induction goes on with the grant noted.
        rename_i i htake
        unfold Item.takePermit? at htake
        split at htake
        · rename_i hfree
          cases htake
          have hnodup' : ((c.noteGrant id).taken ++ ids).Nodup := by
            unfold Call.noteGrant
            split
            · show ((c.taken ++ [id]) ++ ids).Nodup
              rw [List.append_assoc]
              exact hnodup
            · exact hnodup.sublist hsub
          have husers : (c.noteGrant id).users = c.users := by
            unfold Call.noteGrant
            split <;> rfl
          obtain ⟨passed, granted, rest, b₁, rfl, hpass, hend⟩ := ih
            (b.setItem id ({ b.item id with available := (b.item id).available - 1 }.grant c.users))
            (c.noteGrant id) hnodup'
          rw [husers] at hpass
          rw [← Call.noteGrants_cons] at hend
          exact ⟨id :: passed, id :: granted, rest, b₁, rfl, .take hnew hfree hpass, hend⟩
        · cases htake
      · -- There is none, and the call stops in front of this id.
        rename_i htake
        have hbusy : (b.item id).available = 0 := by
          unfold Item.takePermit? at htake
          split at htake
          · cases htake
          · rename_i hfree
            exact Nat.eq_zero_of_not_pos hfree
        refine ⟨[], [], id :: ids, b, rfl, .nil b, ?_⟩
        rw [Call.noteGrants_nil]
        split
        · rename_i hlate
          have htaken : c.taken.Nodup := hnodup.sublist (List.sublist_append_left _ _)
          exact .giveUp hlate (undone_rollBack _ htaken).of_touched
        · exact .wait hbusy

/-- A call that begins makes a run. -/
theorem proceed_run (b : Block) (name : CallId) (c : Call) (now : Nat)
    (hnodup : (c.taken ++ c.ids).Nodup) (habsent : ∀ x, name ∉ (b.item x).queue) :
    Run name now b c (b.proceed name c now c.ids).1 (b.proceed name c now c.ids).2.1 := by
  obtain ⟨passed, granted, rest, b₁, hids, hpass, hend⟩ := proceed_cases b name c now c.ids hnodup
  have hstart : Starts name b c b [] (passed ++ rest) := by
    rw [← hids]
    exact .begins habsent
  exact .intro hstart hpass hend

/-- A call that is woken makes a run, unless it has been woken for
nothing. -/
theorem resume_run (b : Block) (name : CallId) (c : Call) (now : Nat) (hids : c.ids ≠ [])
    (hnodup : (c.taken ++ c.ids).Nodup) :
    b.resume name c now = (.waiting c, b, []) ∨
      Run name now b c (b.resume name c now).1 (b.resume name c now).2.1 := by
  obtain ⟨id, rest, hids⟩ := List.exists_cons_of_ne_nil hids
  rw [hids] at hnodup
  have hsub : (c.taken ++ rest).Sublist (c.taken ++ id :: rest) :=
    (List.Sublist.refl c.taken).append (List.sublist_cons_self id rest)
  simp only [resume, hids]
  split
  · -- It was handed a permit, which it hands back or makes a grant.
    rename_i hhanded
    refine .inr ?_
    simp only [takeHanded]
    split
    · rename_i howned
      obtain ⟨passed, granted, rest, b₁, rfl, hpass, hend⟩ := proceed_cases
        (b.setItem id (((b.item id).unhand name).release 1).1) name c now rest
        (hnodup.sublist hsub)
      exact .intro (.handBack hids hhanded howned) hpass hend
    · rename_i hnew
      have hnew' : (b.item id).isOwnedByAny c.users = false := Bool.not_eq_true _ ▸ hnew
      have hgrant : c.noteGrant id = c.noteGrants [id] := by
        rw [Call.noteGrants_cons, Call.noteGrants_nil]
      have hnodup' : ((c.noteGrants [id]).taken ++ rest).Nodup := by
        rw [Call.taken_noteGrants]
        split
        · rw [List.append_assoc]
          exact hnodup
        · exact hnodup.sublist hsub
      obtain ⟨passed, granted, rest, b₁, rfl, hpass, hend⟩ := proceed_cases
        (b.setItem id (((b.item id).unhand name).grant c.users)) name (c.noteGrants [id]) now rest
        hnodup'
      rw [Call.users_noteGrants] at hpass
      rw [Call.noteGrants_noteGrants] at hend
      rw [hgrant]
      exact .intro (.accept hids hhanded hnew') hpass hend
  · -- It was not, so only its deadline can be the reason.
    rename_i hwaits
    split
    · rename_i hlate
      have hstart : Starts name b c (b.setItem id ((b.item id).leave name)) [] ([] ++ id :: rest) :=
        .leave hids hwaits
      refine .inr (.intro hstart (.nil _) ?_)
      rw [List.append_nil, Call.noteGrants_nil]
      exact .giveUp hlate (undone_rollBack _ (hnodup.sublist (List.sublist_append_left _ _)))
    · exact .inl rfl

end Block

end Backplane.Lock
