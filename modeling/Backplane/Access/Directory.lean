import Backplane.Access.Error
import Backplane.Access.User
import Backplane.Data.Table
import Backplane.Digest.Sha2

/-!
# `Backplane.Access.Directory`: accounts by name

A directory keeps an account for each user name, with the hash of its
password. Some look-ups may be out of service, which is an error and not
the absence of an account. The main statements:

* `byName_add`: an added account is found under its name.
-/

set_option autoImplicit false

namespace Backplane.Access

/-- The bytes of a password's hash. -/
def passwordHash (password : String) : List UInt8 := Digest.sha256 password.toUTF8.data.toList

/-- An account. -/
structure Account where
  user : User
  passwordHash : List UInt8
  rights : Rights
deriving Repr, DecidableEq

/-- The look-ups that do not answer, by what they ask for. -/
structure Outages where
  login : List String := []
  byName : List String := []
  byId : List Int := []
  rights : List String := []
deriving Repr, DecidableEq, Inhabited

/-- The accounts of a directory. -/
structure Directory where
  accounts : Table String Account := ∅
  outages : Outages := {}
deriving Repr, DecidableEq, Inhabited

namespace Directory

/-- Adds or replaces the account of a user. -/
def add (d : Directory) (user : User) (password : String) (rights : Rights) : Directory :=
  { d with accounts := d.accounts.insert user.name ⟨user, Access.passwordHash password, rights⟩ }

/-- Drops the account of a name and tells whether there was one. -/
def remove (d : Directory) (name : String) : Bool × Directory :=
  (d.accounts.contains name, { d with accounts := d.accounts.erase name })

/-- The number of accounts. -/
def size (d : Directory) : Nat := d.accounts.size

/-- Whether there is no account. -/
def isEmpty (d : Directory) : Bool := d.accounts.isEmpty

/-- An answer, unless the look-up is out of service. -/
def ask {α : Type} (out : Bool) (what : String) (answer : α) : Except Error α :=
  if out then .error (.directory (what ++ " failed")) else .ok answer

/-- The user of a name whose password is the given one. -/
def login (d : Directory) (name password : String) : Except Error (Option User) :=
  ask (d.outages.login.contains name) "login" <|
    (d.accounts.get? name).bind fun a =>
      if a.passwordHash = Access.passwordHash password then some a.user else none

/-- The user of a name. -/
def byName (d : Directory) (name : String) : Except Error (Option User) :=
  ask (d.outages.byName.contains name) "by_name" ((d.accounts.get? name).map Account.user)

/-- The first user, in the order of names, with an id. -/
def byId (d : Directory) (id : Int) : Except Error (Option User) :=
  ask (d.outages.byId.contains id) "by_id" <|
    (d.accounts.values.find? fun a => a.user.id = id).map Account.user

/-- The rights of a user's account; without an account there are none. -/
def rights (d : Directory) (user : User) : Except Error Rights :=
  ask (d.outages.rights.contains user.name) "acl" <|
    ((d.accounts.get? user.name).map Account.rights).getD {}

/-- An added account is found under its name, unless look-ups of it are
out of service. -/
theorem byName_add (d : Directory) (user : User) (password : String) (rights : Rights)
    (h : d.outages.byName.contains user.name = false) :
    (d.add user password rights).byName user.name = .ok (some user) := by
  simp only [byName, ask, add, h, Bool.false_eq_true, if_false, Table.get?_insert, if_true,
    Option.map_some]

end Directory

end Backplane.Access
