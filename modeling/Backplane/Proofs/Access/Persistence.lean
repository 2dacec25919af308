import Backplane.Access.Bearer
import Backplane.Access.User
import Backplane.Proofs.Data.Roster
import Backplane.Proofs.Json.Record
import Mathlib.Data.String.Basic

/-!
# `Backplane.Proofs.Access.Persistence`: records that are kept as JSON

Users, rights, announced logons and the claims of tokens are written as JSON
objects and read again, maybe from a text that somebody else has written. Each
type has its `Form`; what is particular to a type is which members may be
missing and which values fit.

* `User.form`: an id of 64 bits, and three texts that may be missing.
* `Rights.form`: two sets, which may be written as any lists of their elements
  (`Rights.ofText?_listed`).
* `Logon.form`, `Bearer.Claims.form`: all members have to be there.

The main statement is `records_read_back`.
-/

set_option autoImplicit false

namespace Backplane.Access

open Backplane.Json (Form Tree)

variable {name : String} {t : Tree} {f : Option Tree}

/-- A member that has to be there is found. -/
theorem eq_some_of_required {optional : List String}
    (h : f = some t ∨ name ∈ optional ∧ t = .string (some "") ∧ f = none)
    (hname : name ∉ optional) : f = some t :=
  h.resolve_right fun hmissing => hname hmissing.1

/-! ### Users -/

namespace User

/-- Users as JSON. -/
def form : Form User where
  write := toJson
  read? := ofTree?
  names := ["id", "name", "first_name", "last_name", "email"]
  optional := ["first_name", "last_name", "email"]
  Proper u := Text.fitsSigned u.id = true

/-- The user of some fields. -/
def ofFields? : List (Option Tree) → Option User
  | [some id, some name, firstName, lastName, email] => do
    return { id := ← id.signed?
             name := ← name.text?
             firstName := ← optionalText? firstName
             lastName := ← optionalText? lastName
             email := ← optionalText? email }
  | _ => none

/-- A text is read from its member, or from none if it is empty. -/
theorem optionalText?_eq {text : String} {optional : List String}
    (h : f = some (.string (some text)) ∨
      name ∈ optional ∧ Tree.string (some text) = .string (some "") ∧ f = none) :
    optionalText? f = some text := by
  rcases h with rfl | ⟨-, hempty, rfl⟩
  · rfl
  · cases hempty
    rfl

theorem builtBy_ofFields? : form.BuiltBy ofFields? where
  read?_eq _ := rfl
  nodup := by decide
  toTree_write _ := rfl
  map_members _ := rfl
  literal u := ⟨Json.isNumber_integer u.id, trivial, trivial, trivial, trivial, trivial⟩
  build_members u hu fs hall := by
    obtain ⟨_, _, hid, hall₁, rfl⟩ := List.forall₂_cons_left_iff.mp hall
    obtain ⟨_, _, hname, hall₂, rfl⟩ := List.forall₂_cons_left_iff.mp hall₁
    obtain ⟨_, _, hfirst, hall₃, rfl⟩ := List.forall₂_cons_left_iff.mp hall₂
    obtain ⟨_, _, hlast, hall₄, rfl⟩ := List.forall₂_cons_left_iff.mp hall₃
    obtain ⟨_, _, hemail, hall₅, rfl⟩ := List.forall₂_cons_left_iff.mp hall₄
    obtain rfl := List.forall₂_nil_left_iff.mp hall₅
    obtain rfl := eq_some_of_required hid (show "id" ∉ form.optional by decide)
    obtain rfl := eq_some_of_required hname (show "name" ∉ form.optional by decide)
    have hsigned : (Json.ofInt u.id).toTree.signed? = some u.id := if_pos hu
    simp only [ofFields?, hsigned, optionalText?_eq hfirst, optionalText?_eq hlast,
      optionalText?_eq hemail]
    rfl
  present fs u h := by
    unfold ofFields? at h
    split at h
    · exact .cons (.inr rfl) (.cons (.inr rfl) (.cons (.inl (by decide)) (.cons (.inl (by decide))
        (.cons (.inl (by decide)) .nil))))
    · cases h

end User

/-! ### Rights -/

namespace Rights

/-- Rights as JSON. -/
def form : Form Rights where
  write := toJson
  read? := ofTree?
  names := ["roles", "permissions"]
  optional := []
  Proper r := r.roles.Ascending ∧ r.permissions.Ascending

/-- The rights of some fields. -/
def ofFields? : List (Option Tree) → Option Rights
  | [some roles, some permissions] => return ofLists (← roles.texts?) (← permissions.texts?)
  | _ => none

/-- A list of texts is read as this list. -/
theorem texts?_listed (texts : List String) :
    (Json.array (texts.map .string)).toTree.texts? = some texts := by
  rw [Json.toTree, Tree.texts?]
  induction texts with
  | nil => rfl
  | cons text rest ih =>
    rw [List.map_cons, Json.itemTrees, List.mapM_cons, ih]
    rfl

theorem itemsLiteral_texts (texts : List String) : Json.ItemsLiteral (texts.map .string) := by
  induction texts with
  | nil => trivial
  | cons text rest ih => exact ⟨trivial, ih⟩

theorem builtBy_ofFields? : form.BuiltBy ofFields? where
  read?_eq _ := rfl
  nodup := by decide
  toTree_write _ := rfl
  map_members _ := rfl
  literal r := ⟨itemsLiteral_texts _, itemsLiteral_texts _, trivial⟩
  build_members r hr fs hall := by
    obtain rfl := Form.fields_eq_of_required rfl hall
    have hsame : ofLists r.roles.members r.permissions.members = r := by
      rw [ofLists, Roster.ofList_members hr.1, Roster.ofList_members hr.2]
    show ofFields? [some (Json.array (r.roles.members.map .string)).toTree,
      some (Json.array (r.permissions.members.map .string)).toTree] = some r
    simp only [ofFields?, texts?_listed]
    exact congrArg some hsame
  present fs r h := by
    unfold ofFields? at h
    split at h
    · exact .cons (.inr rfl) (.cons (.inr rfl) .nil)
    · cases h

/-- The members of rights that list their sets in any way. -/
def listedMembers (roles permissions : List String) : List (String × Tree) :=
  [("roles", (Json.array (roles.map .string)).toTree),
    ("permissions", (Json.array (permissions.map .string)).toTree)]

/-- Two lists of texts are read as the sets of their elements, whatever their
order and however often an element is listed. -/
theorem ofText?_listed (roles permissions : List String) {extra ms : List (String × Tree)}
    (hextra : ∀ m ∈ extra, m.1 ∉ form.names)
    (hperm : ms.Perm (listedMembers roles permissions ++ extra)) {text : String}
    (htext : Json.IsText text.toList (.ofMembers ms)) :
    form.ofText? text = some (ofLists roles permissions) := by
  have hnodup : ((listedMembers roles permissions).map Prod.fst).Nodup := builtBy_ofFields?.nodup
  obtain ⟨fs, hfs, hall⟩ := Tree.exists_fields? hperm hnodup (List.Sublist.refl _) hextra
  -- Nothing is left out, so every field is found.
  have hfound : List.Forall₂ (fun m f => f = some m.2) (listedMembers roles permissions) fs :=
    hall.imp fun m f hf => hf.resolve_right fun hmissing => hmissing.2.1 hmissing.1
  obtain ⟨_, _, rfl, hall₁, rfl⟩ := List.forall₂_cons_left_iff.mp hfound
  obtain ⟨_, _, rfl, hall₂, rfl⟩ := List.forall₂_cons_left_iff.mp hall₁
  obtain rfl := List.forall₂_nil_left_iff.mp hall₂
  have hfields : (Tree.ofMembers ms).fields? form.names = some _ := hfs
  rw [builtBy_ofFields?.ofText?_eq htext, hfields, Option.bind_some]
  simp only [ofFields?, texts?_listed]
  rfl

end Rights

/-! ### Logons -/

namespace Logon

/-- Logons as JSON. -/
def form : Form Logon where
  write := toJson
  read? := ofTree?
  names := ["user_id", "user_name"]
  optional := []
  Proper l := Text.fitsSigned l.userId = true

/-- The logon of some fields. -/
def ofFields? : List (Option Tree) → Option Logon
  | [some userId, some userName] => return ⟨← userId.signed?, ← userName.text?⟩
  | _ => none

theorem builtBy_ofFields? : form.BuiltBy ofFields? where
  read?_eq _ := rfl
  nodup := by decide
  toTree_write _ := rfl
  map_members _ := rfl
  literal l := ⟨Json.isNumber_integer l.userId, trivial, trivial⟩
  build_members l hl fs hall := by
    obtain rfl := Form.fields_eq_of_required rfl hall
    have hsigned : (Json.ofInt l.userId).toTree.signed? = some l.userId := if_pos hl
    show ofFields? [some (Json.ofInt l.userId).toTree, some (.string (some l.userName))] = some l
    simp only [ofFields?, hsigned]
    rfl
  present fs l h := by
    unfold ofFields? at h
    split at h
    · exact .cons (.inr rfl) (.cons (.inr rfl) .nil)
    · cases h

end Logon

/-! ### Claims -/

namespace Bearer.Claims

/-- Claims as JSON. -/
def form : Form Claims where
  write := toJson
  read? := ofTree?
  names := ["idclient", "user", "address", "time"]
  optional := []
  Proper _ := True

/-- The claims of some fields. -/
def ofFields? : List (Option Tree) → Option Claims
  | [some clientId, some user, some address, some time] =>
    return ⟨← clientId.text?, ← user.text?, ← address.text?, .ofNat (← time.unsigned?)⟩
  | _ => none

/-- The time of claims is read as that time. -/
theorem unsigned?_time (time : UInt64) :
    (Json.ofInt time.toNat).toTree.unsigned? = some time.toNat := by
  have hlt := time.toNat_lt
  refine if_pos ⟨Int.natCast_nonneg _, ?_⟩
  rw [Int.toNat_natCast, Text.maxUnsigned]
  omega

theorem builtBy_ofFields? : form.BuiltBy ofFields? where
  read?_eq _ := rfl
  nodup := by decide
  toTree_write _ := rfl
  map_members _ := rfl
  literal c := ⟨trivial, trivial, trivial, Json.isNumber_integer _, trivial⟩
  build_members c _ fs hall := by
    obtain rfl := Form.fields_eq_of_required rfl hall
    have hread : ofFields? [some (.string (some c.clientId)), some (.string (some c.user)),
        some (.string (some c.address)), some (Json.ofInt c.time.toNat).toTree]
        = some ⟨c.clientId, c.user, c.address, .ofNat c.time.toNat⟩ := by
      simp only [ofFields?, unsigned?_time]
      rfl
    rwa [UInt64.ofNat_toNat] at hread
  present fs c h := by
    unfold ofFields? at h
    split at h
    · exact .cons (.inr rfl) (.cons (.inr rfl) (.cons (.inr rfl) (.cons (.inr rfl) .nil)))
    · cases h

end Bearer.Claims

/-- Users, rights, logons and claims are read back as they were written, also
from texts with other members, other blanks and other escapes, and with the
members in another order. -/
theorem records_read_back :
    User.form.Faithful ∧ Rights.form.Faithful ∧ Logon.form.Faithful ∧
      Bearer.Claims.form.Faithful :=
  ⟨User.builtBy_ofFields?.faithful, Rights.builtBy_ofFields?.faithful,
    Logon.builtBy_ofFields?.faithful, Bearer.Claims.builtBy_ofFields?.faithful⟩

/-- Other blanks, other escapes, members in another order, and one that is not
of the record. -/
example : User.form.ofText?
    "\x7b \"email\" : \"\\u00e9\\ud83d\\ude00\", \"x\": [1.5e400],\t\"name\":\"a\\/b\",\"id\":-5\x7d"
    = some { id := -5, name := "a/b", email := "é😀" } := by decide +kernel

end Backplane.Access
