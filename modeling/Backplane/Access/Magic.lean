import Backplane.Digest.Sha1
import Backplane.Text.Hex

/-!
# `Backplane.Access.Magic`: the alternate password of listed users

The alternate password of a user is the hexadecimal hash of the user's
name, a shared secret and the name of the application, joined by
underscores.
-/

set_option autoImplicit false

namespace Backplane.Access.Magic

/-- The alternate password. -/
def password (user secret application : String) : String :=
  let text := user ++ "_" ++ secret ++ "_" ++ application
  Text.Hex.encode (Digest.Sha1.hash text.toUTF8.data.toList)

/-- A text with its ASCII letters in lower case. -/
def lower (s : String) : String := String.ofList (s.toList.map Char.toLower)

/-- Whether a given password is the alternate one, in either case of its
ASCII letters. Without a secret there is no alternate password. -/
def verify (user given secret application : String) : Bool :=
  !secret.isEmpty && lower given == password user secret application

/-- Without a secret nothing is accepted. -/
theorem verify_empty_secret (user given application : String) :
    verify user given "" application = false := rfl

end Backplane.Access.Magic
