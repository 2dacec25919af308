import Backplane.Access.Magic

/-!
# `Backplane.Access.Settings`: parameters of the access service
-/

set_option autoImplicit false

namespace Backplane.Access

/-- The parameters of the access service. Lifetimes are milliseconds. -/
structure Settings where
  /-- Lifetime of a client that is not used. -/
  tokenTtl : Nat := 1800000
  /-- Lifetime of an anti-forgery token. -/
  csrfTtl : Nat := 3600000
  /-- The user of anonymous clients; without one there are none. -/
  anonymousUser : Option String := some "anonymous"
  /-- The users who may log on with the alternate password. -/
  magicUsers : List String := []
  magicSecret : String := ""
  application : String := ""
  /-- Where the key pair is kept; without a place it is made anew. -/
  keystore : Option String := none
deriving Repr, DecidableEq, Inhabited

namespace Settings

/-- Short lifetimes and one user with an alternate password, for trials. -/
def trial : Settings :=
  { tokenTtl := 60000, csrfTtl := 60000, magicUsers := ["support"], magicSecret := "s3cret",
    application := "test-app" }

/-- Whether a user may log on with the alternate password. -/
def isMagicUser (s : Settings) (user : String) : Bool :=
  !s.magicSecret.isEmpty && s.magicUsers.contains user

end Settings

end Backplane.Access
