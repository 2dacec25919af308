import Backplane.Json.Tree

/-!
# `Backplane.Json.Record`: records read from JSON

A record is read from an object, where unknown members are skipped and a
known one may not stand twice, or from an array of its fields in order.
The main statements:

* `length_fields?`: there is one place for each field.
-/

set_option autoImplicit false

namespace Backplane.Json.Tree

/-- A string. -/
def text? : Tree → Option String
  | .string s => s
  | _ => none

/-- A signed 64-bit integer. -/
def signed? : Tree → Option Int
  | .number (.integer n) => if Text.fitsSigned n then some n else none
  | _ => none

/-- An unsigned 64-bit integer. -/
def unsigned? : Tree → Option Nat
  | .number (.integer n) => if 0 ≤ n ∧ n.toNat ≤ Text.maxUnsigned then some n.toNat else none
  | _ => none

/-- An array of strings. -/
def texts? : Tree → Option (List String)
  | .array items => items.mapM text?
  | _ => none

/-- The values of the members of one name. -/
def named (name : String) (members : List (Option String × Tree)) : List Tree :=
  (members.filter fun m => m.1 == some name).map Prod.snd

/-- The one member of a name, if there is one; `none` if there are more. -/
def atMostOnce? (name : String) (members : List (Option String × Tree)) : Option (Option Tree) :=
  match named name members with
  | [] => some none
  | [t] => some (some t)
  | _ => none

/-- The fields of a record in declaration order, a field being absent if
its member is missing or the array ends before it. -/
def fields? (names : List String) : Tree → Option (List (Option Tree))
  | .object members =>
    if members.all fun m => m.1.isSome then names.mapM fun name => atMostOnce? name members
    else none
  | .array items =>
    if items.length ≤ names.length then
      some (items.map some ++ List.replicate (names.length - items.length) none)
    else none
  | _ => none

private theorem length_of_mapM {α β : Type} (f : α → Option β) {xs : List α} {ys : List β}
    (h : xs.mapM f = some ys) : ys.length = xs.length := by
  induction xs generalizing ys with
  | nil => simp only [List.mapM_nil, Option.pure_def, Option.some.injEq] at h; simp [← h]
  | cons x rest ih =>
    simp only [List.mapM_cons, Option.pure_def, Option.bind_eq_bind, Option.bind_eq_some_iff,
      Option.some.injEq] at h
    obtain ⟨_, _, vs, hvs, rfl⟩ := h
    simp [ih hvs]

/-- There is one place for each field. -/
theorem length_fields? {names : List String} {t : Tree} {fs : List (Option Tree)}
    (h : t.fields? names = some fs) : fs.length = names.length := by
  unfold fields? at h
  split at h
  · split at h
    · exact length_of_mapM _ h
    · simp at h
  · split at h
    · simp only [Option.some.injEq] at h
      rw [← h]; simp; omega
    · simp at h
  · simp at h

end Backplane.Json.Tree
