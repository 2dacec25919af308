import Backplane.Node.Settings
import Backplane.Proofs.Data.Table
import Mathlib.Data.List.Induction
import Mathlib.Data.List.Nodup

/-!
# `Backplane.Proofs.Node.Seed`: the directory of the declared users

Accounts are kept by name, while the logon of a session asks for a user's id.
The anonymous user gets the id 0 whenever the name is not declared, and
nobody checks whether that id is. So two accounts may share it, and then the
answer for it is the account that is listed first. The main statements:

* `Seeds.addTo`, `seeds_foldl`: what a directory holds after the declarations
  of a list, whose names differ.
* `Seeds.find?_of_perm`: under ids that differ, every order of the accounts
  leads to the same user.
* `resolves_iff`: users whose names and ids differ are all found, except
  that by its id a user with the id 0 need not be, if there is an anonymous
  account.
-/

set_option autoImplicit false

namespace Backplane.Node

open Access (Account Directory Rights)

/-- The account of a declared user. -/
def UserDecl.account (d : UserDecl) : Account :=
  ⟨d.user, Access.passwordHash d.password, .ofLists d.roles []⟩

/-- A directory holds the accounts of a list of declarations and no others. -/
structure Seeds (dir : Directory) (ds : List UserDecl) : Prop where
  outages : dir.outages = {}
  account : ∀ d ∈ ds, dir.accounts.get? d.name = some d.account
  absent : ∀ name, (∀ d ∈ ds, d.name ≠ name) → dir.accounts.get? name = none
  values : dir.accounts.values.Perm (ds.map UserDecl.account)

variable {dir : Directory} {ds : List UserDecl} {d : UserDecl}

theorem seeds_nil : Seeds {} [] where
  outages := rfl
  account := fun _ hd => absurd hd List.not_mem_nil
  absent := fun _ _ => rfl
  values := .refl []

/-- A declaration of a new name adds its account to the others. -/
theorem Seeds.addTo (h : Seeds dir ds) (hnew : ∀ d' ∈ ds, d'.name ≠ d.name) :
    Seeds (d.addTo dir) (ds ++ [d]) := by
  have hget : ∀ name, (d.addTo dir).accounts.get? name
      = if name = d.name then some d.account else dir.accounts.get? name :=
    fun name => Table.get?_insert dir.accounts d.name name d.account
  refine ⟨h.outages, fun d' hd' => ?_, fun name hname => ?_, ?_⟩
  · rw [hget]
    rcases List.mem_append.mp hd' with hd' | hd'
    · rw [if_neg (hnew d' hd'), h.account d' hd']
    · rw [List.mem_singleton.mp hd', if_pos rfl]
  · have hne : name ≠ d.name := (hname d (by simp)).symm
    rw [hget, if_neg hne]
    exact h.absent name fun d' hd' => hname d' (List.mem_append_left _ hd')
  · rw [List.map_append, List.map_singleton]
    have hvalues := Table.perm_values_insert (h.absent d.name hnew) d.account
    exact (hvalues.trans (h.values.cons d.account)).trans (List.perm_append_singleton _ _).symm

/-- The directory of a list of declarations whose names differ. The induction
is on the last declaration, since the accounts are added from the front. -/
theorem seeds_foldl (hnames : (ds.map UserDecl.name).Nodup) :
    Seeds (ds.foldl UserDecl.addTo {}) ds := by
  induction ds using List.reverseRecOn with
  | nil => exact seeds_nil
  | append_singleton ds d ih =>
    rw [List.map_append, List.map_singleton, ← List.concat_eq_append, List.nodup_concat] at hnames
    obtain ⟨hnew, hrest⟩ := hnames
    rw [List.foldl_append]
    refine (ih hrest).addTo fun d' hd' hname => ?_
    exact hnew (hname ▸ List.mem_map_of_mem hd')

/-! ### Look-ups by name -/

namespace Seeds

theorem byName (h : Seeds dir ds) (hd : d ∈ ds) : dir.byName d.name = .ok (some d.user) := by
  unfold Directory.byName Directory.ask
  rw [h.outages, h.account d hd]
  rfl

theorem login (h : Seeds dir ds) (hd : d ∈ ds) :
    dir.login d.name d.password = .ok (some d.user) := by
  unfold Directory.login Directory.ask
  rw [h.outages, h.account d hd, Option.bind_some]
  have hpassword : d.account.passwordHash = Access.passwordHash d.password := rfl
  rw [if_pos hpassword]
  rfl

theorem rights (h : Seeds dir ds) (hd : d ∈ ds) :
    dir.rights d.user = .ok (.ofLists d.roles []) := by
  have hget : dir.accounts.get? d.user.name = some d.account := h.account d hd
  unfold Directory.rights Directory.ask
  rw [h.outages, hget]
  rfl

theorem size (h : Seeds dir ds) : dir.size = ds.length := by
  have hlength := h.values.length_eq
  rw [Table.values, List.length_map, List.length_map] at hlength
  exact hlength

/-! ### Look-ups by id -/

/-- Accounts share no id if declarations share none. -/
theorem ids_distinct_iff (h : Seeds dir ds) :
    (dir.accounts.values.map fun a => a.user.id).Nodup ↔ (ds.map UserDecl.id).Nodup := by
  have hids : (ds.map UserDecl.account).map (fun a => a.user.id) = ds.map UserDecl.id :=
    List.map_map
  rw [(h.values.map fun a => a.user.id).nodup_iff, hids]

/-- In whatever order the accounts are listed, the first one with the id of a
declaration is that of the declaration, if no two ids are the same. -/
theorem find?_of_perm (h : Seeds dir ds) (hids : (ds.map UserDecl.id).Nodup) (hd : d ∈ ds)
    {listing : List Account} (hlisting : listing.Perm dir.accounts.values) :
    listing.find? (fun a => a.user.id = d.id) = some d.account := by
  have hnodup : (listing.map fun a => a.user.id).Nodup :=
    (hlisting.map _).nodup_iff.mpr (h.ids_distinct_iff.mpr hids)
  have hmem : d.account ∈ listing :=
    (hlisting.trans h.values).mem_iff.mpr (List.mem_map_of_mem hd)
  have hsome : (listing.find? fun a => a.user.id = d.id).isSome :=
    List.find?_isSome.mpr ⟨d.account, hmem, decide_eq_true rfl⟩
  obtain ⟨a, ha⟩ := Option.isSome_iff_exists.mp hsome
  have hfound := List.find?_some ha
  have hid : a.user.id = d.account.user.id := of_decide_eq_true hfound
  rw [ha, List.inj_on_of_nodup_map hnodup (List.mem_of_find?_eq_some ha) hmem hid]

/-- Each account is the first of its id in some order of the accounts. -/
theorem exists_perm_find? (h : Seeds dir ds) (hd : d ∈ ds) :
    ∃ listing : List Account, listing.Perm dir.accounts.values ∧
      listing.find? (fun a => a.user.id = d.id) = some d.account := by
  have hmem : d.account ∈ dir.accounts.values := h.values.mem_iff.mpr (List.mem_map_of_mem hd)
  refine ⟨d.account :: dir.accounts.values.erase d.account, (List.perm_cons_erase hmem).symm, ?_⟩
  exact List.find?_cons_of_pos (decide_eq_true rfl)

end Seeds

/-! ### The directory of a node -/

namespace Settings

variable {s : Settings}

/-- The anonymous account is made for a configured name that is not declared. -/
theorem anonymousDecl?_eq_some_iff {a : UserDecl} :
    s.anonymousDecl? = some a ↔ ∃ name, s.access.anonymousUser = some name ∧
      (∀ d ∈ s.users, d.name ≠ name) ∧ a = ⟨0, name, "", []⟩ := by
  unfold anonymousDecl?
  rw [Option.bind_eq_some_iff]
  refine exists_congr fun name => and_congr_right fun _ => ?_
  have hdeclared : (s.users.any fun d => d.name == name) = true ↔ ∃ d ∈ s.users, d.name = name := by
    simp
  split
  · rename_i hany
    obtain ⟨d, hd, hname⟩ := hdeclared.mp hany
    exact iff_of_false nofun fun h => h.1 d hd hname
  · rename_i hany
    have hfresh : ∀ d ∈ s.users, d.name ≠ name :=
      fun d hd hname => hany (hdeclared.mpr ⟨d, hd, hname⟩)
    constructor
    · intro h
      cases h
      exact ⟨hfresh, rfl⟩
    · rintro ⟨-, rfl⟩
      rfl

/-- A node's directory holds the declared users and the anonymous one. -/
theorem seeds_seedDirectory (hnames : (s.users.map UserDecl.name).Nodup) :
    Seeds s.seedDirectory (s.users ++ s.anonymousDecl?.toList) := by
  refine seeds_foldl ?_
  cases ha : s.anonymousDecl? with
  | none => simpa using hnames
  | some a =>
    obtain ⟨name, -, hfresh, rfl⟩ := anonymousDecl?_eq_some_iff.mp ha
    rw [Option.toList_some, List.map_append, List.map_singleton, ← List.concat_eq_append,
      List.nodup_concat]
    refine ⟨fun hmem => ?_, hnames⟩
    obtain ⟨d, hd, hname⟩ := List.mem_map.mp hmem
    exact hfresh d hd hname

/-- Every declared user is found by name, may log on and has the declared
roles. A configured anonymous user that is not declared is there besides, and
may do nothing. -/
structure ResolvesNames (s : Settings) : Prop where
  byName : ∀ d ∈ s.users, s.seedDirectory.byName d.name = .ok (some d.user)
  login : ∀ d ∈ s.users, s.seedDirectory.login d.name d.password = .ok (some d.user)
  rights : ∀ d ∈ s.users, ∃ r, s.seedDirectory.rights d.user = .ok r ∧
    (∀ role, r.hasRole role = true ↔ role ∈ d.roles) ∧ r.permissions = ∅
  anonymous : ∀ name, s.access.anonymousUser = some name → (∀ d ∈ s.users, d.name ≠ name) →
    s.seedDirectory.byName name = .ok (some { id := 0, name }) ∧
      s.seedDirectory.rights { id := 0, name } = .ok {} ∧
      s.seedDirectory.size = s.users.length + 1

/-- No two accounts share an id, and every declared user is found by its id, in
whatever order the accounts are listed. -/
structure ResolvesIds (s : Settings) : Prop where
  distinct : (s.seedDirectory.accounts.values.map fun a => a.user.id).Nodup
  byId : ∀ d ∈ s.users, s.seedDirectory.byId d.id = .ok (some d.user)
  byId_of_perm : ∀ d ∈ s.users, ∀ listing : List Account,
    listing.Perm s.seedDirectory.accounts.values →
      (listing.find? fun a => a.user.id = d.id).map Account.user = some d.user

/-- There is an anonymous account, and its id is that of a declared user. -/
def SharesAnonymousId (s : Settings) : Prop :=
  s.anonymousDecl?.isSome ∧ ∃ d ∈ s.users, d.id = 0

theorem resolvesNames (hnames : (s.users.map UserDecl.name).Nodup) : s.ResolvesNames := by
  have hseeds := seeds_seedDirectory hnames
  have hmem : ∀ d ∈ s.users, d ∈ s.users ++ s.anonymousDecl?.toList :=
    fun d hd => List.mem_append_left _ hd
  refine ⟨fun d hd => hseeds.byName (hmem d hd), fun d hd => hseeds.login (hmem d hd),
    fun d hd => ⟨_, hseeds.rights (hmem d hd), fun role => ?_, rfl⟩, fun name hname hfresh => ?_⟩
  · rw [Rights.hasRole, decide_eq_true_eq]
    exact Roster.mem_ofList d.roles role
  · have ha : s.anonymousDecl? = some ⟨0, name, "", []⟩ :=
      anonymousDecl?_eq_some_iff.mpr ⟨name, hname, hfresh, rfl⟩
    rw [ha, Option.toList_some] at hseeds
    have hlast : (⟨0, name, "", []⟩ : UserDecl) ∈ s.users ++ [⟨0, name, "", []⟩] := by simp
    refine ⟨hseeds.byName hlast, hseeds.rights hlast, ?_⟩
    rw [hseeds.size, List.length_append, List.length_singleton]

/-- Users whose ids differ share no id with the anonymous one, unless they
have the id 0. -/
theorem nodup_ids_iff (hids : (s.users.map UserDecl.id).Nodup) :
    ((s.users ++ s.anonymousDecl?.toList).map UserDecl.id).Nodup ↔ ¬ s.SharesAnonymousId := by
  unfold SharesAnonymousId
  cases ha : s.anonymousDecl? with
  | none => simpa using hids
  | some a =>
    obtain ⟨name, -, -, rfl⟩ := anonymousDecl?_eq_some_iff.mp ha
    rw [Option.toList_some, List.map_append, List.map_singleton, ← List.concat_eq_append,
      List.nodup_concat, List.mem_map]
    simp [hids]

/-- Ids that differ, that of the anonymous user included, lead to the users. -/
theorem resolvesIds_iff_nodup (hnames : (s.users.map UserDecl.name).Nodup) :
    s.ResolvesIds ↔ ((s.users ++ s.anonymousDecl?.toList).map UserDecl.id).Nodup := by
  have hseeds := seeds_seedDirectory hnames
  refine ⟨fun h => hseeds.ids_distinct_iff.mp h.distinct, fun h => ?_⟩
  have hfind : ∀ d ∈ s.users, ∀ listing : List Account,
      listing.Perm s.seedDirectory.accounts.values →
        (listing.find? fun a => a.user.id = d.id).map Account.user = some d.user := by
    intro d hd listing hlisting
    rw [hseeds.find?_of_perm h (List.mem_append_left _ hd) hlisting]
    rfl
  refine ⟨hseeds.ids_distinct_iff.mpr h, fun d hd => ?_, hfind⟩
  unfold Directory.byId Directory.ask
  rw [hseeds.outages, hfind d hd _ (.refl _)]
  rfl

/-- What the directory of users with different names and different ids finds.
By name it finds all of them. By id it does so exactly if the anonymous
account shares the id of none of them. If it does share one, the answer for
that id may be the anonymous user, depending on the order of the accounts. -/
theorem resolves_iff (s : Settings) (hnames : (s.users.map UserDecl.name).Nodup)
    (hids : (s.users.map UserDecl.id).Nodup) :
    s.ResolvesNames ∧ (s.ResolvesIds ↔ ¬ s.SharesAnonymousId) ∧
      ∀ d ∈ s.users, ∀ a, s.anonymousDecl? = some a → d.id = a.id →
        ∃ listing : List Account, listing.Perm s.seedDirectory.accounts.values ∧
          (listing.find? fun a => a.user.id = d.id).map Account.user = some a.user ∧
          a.user ≠ d.user := by
  refine ⟨resolvesNames hnames, (resolvesIds_iff_nodup hnames).trans (nodup_ids_iff hids), ?_⟩
  intro d hd a ha hid
  have hseeds := seeds_seedDirectory hnames
  rw [ha, Option.toList_some] at hseeds
  obtain ⟨listing, hlisting, hfind⟩ := hseeds.exists_perm_find? (d := a) (by simp)
  obtain ⟨name, -, hfresh, rfl⟩ := anonymousDecl?_eq_some_iff.mp ha
  refine ⟨listing, hlisting, ?_, fun heq => ?_⟩
  · rw [hid, hfind]
    rfl
  · exact hfresh d hd (congrArg Access.User.name heq).symm

/-- Two declared users, and an anonymous one besides. -/
def twoUsers : Settings :=
  { users := [⟨7, "mario", "pizza", ["admin", "chef"]⟩, ⟨9, "luigi", "pasta", []⟩] }

/-- Both of them are found by their ids. -/
theorem twoUsers_resolved : twoUsers.ResolvesNames ∧ twoUsers.ResolvesIds := by
  obtain ⟨hresolves, hiff, -⟩ := resolves_iff twoUsers (by decide) (by decide)
  refine ⟨hresolves, hiff.mpr ?_⟩
  rintro ⟨-, hzero⟩
  exact absurd hzero (by decide)

/-- A declared user with the id of the anonymous one. -/
def rootUser : Settings := { users := [⟨0, "root", "secret", ["admin"]⟩] }

/-- The id of that user is that of two accounts. -/
theorem not_always_resolved : ¬ ∀ s : Settings, (s.users.map UserDecl.name).Nodup →
    (s.users.map UserDecl.id).Nodup → s.ResolvesNames ∧ s.ResolvesIds := by
  intro h
  have hresolves := (h rootUser (by decide) (by decide)).2
  have hnodup := (resolvesIds_iff_nodup (by decide)).mp hresolves
  exact absurd hnodup (by decide)

end Settings

end Backplane.Node
