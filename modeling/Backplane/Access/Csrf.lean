import Backplane.Text.Base64

/-!
# `Backplane.Access.Csrf`: outcomes of an anti-forgery check
-/

set_option autoImplicit false

namespace Backplane.Access

/-- What a presented anti-forgery token turned out to be. -/
inductive CsrfCheck where
  /-- Issued to the presenting session and still good. -/
  | valid
  /-- Never issued, used up, or expired. -/
  | unknownToken
  /-- Issued to another session. -/
  | sessionMismatch
deriving Repr, DecidableEq

namespace CsrfCheck

/-- The numeric result. -/
def code : CsrfCheck → Int
  | valid => 0
  | unknownToken => 1
  | sessionMismatch => 2

/-- The outcomes in the order of their codes. -/
def all : List CsrfCheck := [valid, unknownToken, sessionMismatch]

/-- Only one code means success. -/
theorem code_eq_zero_iff (c : CsrfCheck) : c.code = 0 ↔ c = valid := by
  cases c <;> decide

end CsrfCheck

/-- The token of random bytes. -/
def csrfToken (random : List UInt8) : String := Text.Base64.encode .standard .always random

end Backplane.Access
