import Backplane.Access.Bearer
import Backplane.Key.Store

/-!
# `Backplane.Access.Error`: why an access request is refused
-/

set_option autoImplicit false

namespace Backplane.Access

/-- Why a request is refused. -/
inductive Error where
  /-- Neither the directory nor the alternate password accepts the logon. -/
  | authenticationFailed (user : String)
  /-- No anonymous user is configured, or the directory has none. -/
  | anonymousDisabled
  | unknownToken (clientId : String)
  | tokenExpired (clientId : String)
  | unknownSession (session : String)
  | unknownUser (id : Int)
  | invalidToken (fault : Bearer.Fault)
  | addressMismatch (issued actual : String)
  /-- The directory does not answer. -/
  | directory (text : String)
  | keystore (fault : Key.Fault)
deriving Repr, DecidableEq

namespace Error

/-- The text of an error. -/
def message : Error → String
  | authenticationFailed user => "Authentication failed for user " ++ user
  | anonymousDisabled => "Anonymous access is not enabled"
  | unknownToken clientId => "Unknown client token: " ++ clientId
  | tokenExpired clientId => "Client token expired: " ++ clientId
  | unknownSession session => "No logon registered for session " ++ session
  | unknownUser id => "Unknown user id: " ++ toString id
  | invalidToken fault => "Invalid bearer token: " ++ fault.message
  | addressMismatch issued actual => "Bearer token issued to " ++ issued ++ " used from " ++ actual
  | directory text => "Directory error: " ++ text
  | keystore fault => "Keystore error: " ++ fault.message

end Error

/-- Whether claims may be used from an address. -/
def Bearer.Claims.checkAddress (c : Bearer.Claims) (address : String) : Except Error Unit :=
  if c.admits address then .ok () else .error (.addressMismatch c.address address)

end Backplane.Access
