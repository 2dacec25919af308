import Backplane.Proofs.Bus.Operation
import Backplane.Proofs.Data.Table
import Backplane.Proofs.Text.Utf8
import Mathlib.Data.String.Basic
import Mathlib.Logic.Function.Basic

/-!
# `Backplane.Proofs.Bus.Registry`: who is registered

Listeners come, take the place of others of their name, and go, and a bus lists
who is there in the order of the names. Nothing else about the past makes a
difference: `standing` says who is left by the last change of each name, and the
list is the same after all sequences of changes that leave the same listeners.
What is said here is said of both registries, that of plain listeners and that
of listeners within transactions. The main statements:

* `listeners_used`, `transactional_used`: the registries after any operations.
* `mem_entries_recorded`, `recorded_congr`: they list who is left, and each in
  one way only.
* `inByteOrder_keys`: names are listed in the order of their bytes.
-/

set_option autoImplicit false

namespace Backplane.Bus

variable {L T α : Type}

/-- A change of a registry: who is under a name from now on, if anybody. -/
structure Registration (α : Type) where
  name : String
  listener? : Option α

/-- Makes the change. -/
def Registration.record (t : Table String α) (r : Registration α) : Table String α :=
  match r.listener? with
  | some l => t.insert r.name l
  | none => t.erase r.name

/-- The registry that changes leave. -/
def recorded (rs : List (Registration α)) : Table String α := rs.foldl Registration.record ∅

/-- Who is under each name after changes: the last change of a name counts. -/
def standing (rs : List (Registration α)) : String → Option α :=
  rs.foldl (fun found r => Function.update found r.name r.listener?) fun _ => none

theorem get?_record (t : Table String α) (r : Registration α) :
    (r.record t).get? = Function.update t.get? r.name r.listener? := by
  funext name
  unfold Registration.record
  split
  · rename_i l heq
    rw [Table.get?_insert, Function.update_apply, heq]
  · rename_i heq
    rw [Table.get?_erase, Function.update_apply, heq]

theorem ascending_record {t : Table String α} (h : t.Ascending) (r : Registration α) :
    (r.record t).Ascending := by
  unfold Registration.record
  split
  · exact Table.ascending_insert h _ _
  · exact h.erase _

/-- A look-up finds who is left. -/
theorem get?_recorded (rs : List (Registration α)) : (recorded rs).get? = standing rs := by
  -- The registry may hold anything at first.
  suffices ∀ (t : Table String α), (rs.foldl Registration.record t).get? =
      rs.foldl (fun found r => Function.update found r.name r.listener?) t.get? from this ∅
  intro t
  induction rs generalizing t with
  | nil => rfl
  | cons r rest ih => rw [List.foldl_cons, List.foldl_cons, ih, get?_record]

theorem ascending_recorded (rs : List (Registration α)) : (recorded rs).Ascending := by
  suffices ∀ t : Table String α, t.Ascending → (rs.foldl Registration.record t).Ascending from
    this ∅ Table.ascending_empty
  intro t ht
  induction rs generalizing t with
  | nil => exact ht
  | cons r rest ih => exact ih _ (ascending_record ht r)

/-- The registry lists who is left, and nobody else. -/
theorem mem_entries_recorded (rs : List (Registration α)) (name : String) (l : α) :
    (name, l) ∈ (recorded rs).entries ↔ standing rs name = some l := by
  rw [← get?_recorded]
  exact ⟨Table.get?_of_mem_entries (ascending_recorded rs), Table.mem_entries_of_get?⟩

/-- In which order listeners came makes no difference. -/
theorem recorded_congr {rs rs' : List (Registration α)} (h : standing rs = standing rs') :
    recorded rs = recorded rs' := by
  refine Table.ext_get? (ascending_recorded rs) (ascending_recorded rs') fun name => ?_
  rw [get?_recorded, get?_recorded, h]

/-! ### The order of the names -/

/-- Names ascend in the order of their bytes. -/
def InByteOrder (names : List String) : Prop :=
  names.Pairwise fun a b => a.toUTF8.data.toList < b.toUTF8.data.toList

/-- A table lists its names in the order of their bytes. -/
theorem inByteOrder_keys {t : Table String α} (h : t.Ascending) : InByteOrder t.keys :=
  List.pairwise_map.mpr (h.imp Text.toUTF8_lt)

/-! ### The registries of a bus -/

/-- The change of the plain listeners by an operation. -/
def Operation.registration? : Operation L T → Option (Registration L)
  | .register name l => some ⟨name, some l⟩
  | .unregister name => some ⟨name, none⟩
  | _ => none

/-- The change of the listeners within transactions by an operation. -/
def Operation.registrationWithin? : Operation L T → Option (Registration T)
  | .registerTransactional name l => some ⟨name, some l⟩
  | .unregisterTransactional name => some ⟨name, none⟩
  | _ => none

/-- A new bus after operations, each at its time. -/
def used (settings : Settings) (ops : List (Nat × Operation L T)) : Bus L T :=
  ops.foldl (fun b o => b.apply o.1 o.2) { settings }

/-- The changes of the plain listeners by operations. -/
def registrations (ops : List (Nat × Operation L T)) : List (Registration L) :=
  ops.filterMap fun o => o.2.registration?

/-- The changes of the listeners within transactions by operations. -/
def registrationsWithin (ops : List (Nat × Operation L T)) : List (Registration T) :=
  ops.filterMap fun o => o.2.registrationWithin?

/-- A registry that every operation changes as `change?` says holds what these
changes leave. -/
theorem read_used {read : Bus L T → Table String α}
    {change? : Operation L T → Option (Registration α)} {settings : Settings}
    (hnew : read { settings } = ∅)
    (happly : ∀ b now o,
      read (b.apply now o) = (change? o).elim (read b) (Registration.record (read b)))
    (ops : List (Nat × Operation L T)) :
    read (used settings ops) = recorded (ops.filterMap fun o => change? o.2) := by
  unfold used recorded
  rw [← hnew]
  generalize ({ settings } : Bus L T) = b
  induction ops generalizing b with
  | nil => rfl
  | cons o rest ih =>
    rw [List.foldl_cons, ih, happly, List.filterMap_cons]
    cases hchange : change? o.2 with
    | none | some r => rfl

/-- What is sent, the worker and a close touch no registry. -/
theorem registries_apply (b : Bus L T) (now : Nat) (o : Operation L T) :
    (b.apply now o).listeners
        = o.registration?.elim b.listeners (Registration.record b.listeners) ∧
      (b.apply now o).transactional
        = o.registrationWithin?.elim b.transactional (Registration.record b.transactional) := by
  cases o with
  | send m delay =>
    rw [apply_send]
    exact ⟨rfl, rfl⟩
  | sendPack p =>
    rw [apply_sendPack]
    exact ⟨rfl, rfl⟩
  | start hasRuntime =>
    rcases apply_start b now hasRuntime with h | ⟨_, h⟩
    · rw [h]
      exact ⟨rfl, rfl⟩
    · rw [h]
      exact ⟨rfl, rfl⟩
  | register name l | unregister name | registerTransactional name l
  | unregisterTransactional name | shutdown => exact ⟨rfl, rfl⟩

theorem listeners_used (settings : Settings) (ops : List (Nat × Operation L T)) :
    (used settings ops).listeners = recorded (registrations ops) :=
  read_used rfl (fun b now o => (registries_apply b now o).1) ops

theorem transactional_used (settings : Settings) (ops : List (Nat × Operation L T)) :
    (used settings ops).transactional = recorded (registrationsWithin ops) :=
  read_used rfl (fun b now o => (registries_apply b now o).2) ops

end Backplane.Bus
