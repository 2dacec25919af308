import Backplane.Access.Settings
import Backplane.Bus.Settings
import Backplane.Lock.Decl
import Backplane.Node.Environment
import Backplane.Node.UserDecl

/-!
# `Backplane.Node.Settings`: parameters of a node

The parameters of the three services, of the log output, and the declared
users, read from an environment. A variable that is unset or no value of
its kind leaves the default.
-/

set_option autoImplicit false

namespace Backplane.Node

/-- How the log is written. -/
structure LogSettings where
  level : String := "info"
  json : Bool := false
deriving Repr, DecidableEq, Inhabited

/-- The parameters of a node. -/
structure Settings where
  logging : LogSettings := {}
  bus : Bus.Settings := {}
  lockTypes : List Lock.TypeDecl := []
  access : Access.Settings := {}
  users : List UserDecl := []
deriving Repr, DecidableEq, Inhabited

/-- Why parameters are not fit for production. -/
inductive SettingsFault where
  /-- Users may log on with the alternate password, but it has no secret. -/
  | missingMagicSecret
  /-- Users may log on with the alternate password, but the application
  has no name. -/
  | missingApplication
  /-- The key pair would be lost with the node. -/
  | ephemeralKeystore
deriving Repr, DecidableEq

/-- The text of a fault. -/
def SettingsFault.message : SettingsFault → String
  | missingMagicSecret =>
    "SECURITY VIOLATION: magic logon users configured without a secret. "
      ++ "Set SIRIO_AUTH_MAGIC_SECRET or clear SIRIO_AUTH_MAGIC_USERS."
  | missingApplication => "Magic logon users configured without SIRIO_AUTH_APP_UUID"
  | ephemeralKeystore =>
    "Bearer token keypair is not persisted. Set SIRIO_AUTH_KEYSTORE_DIR."

namespace LogSettings

/-- Whether a text means yes. -/
def isYes (s : String) : Bool := s.toList.map Char.toLower == "true".toList || s == "1"

/-- The log output of an environment. -/
def ofEnvironment (e : Environment) : LogSettings :=
  { level := ((e.text? "SIRIO_LOG_LEVEL").or (e.text? "RUST_LOG")).getD "info"
    json := (e.text? "SIRIO_JSON_LOGS").any isYes }

end LogSettings

/-- The bus of an environment. -/
def busOfEnvironment (e : Environment) : Bus.Settings :=
  let base : Bus.Settings := {}
  { base with
    defaultDelay := (e.unsigned? "SIRIO_BUS_DELAY_MS").getD base.defaultDelay
    idlePoll := ((e.unsigned? "SIRIO_BUS_IDLE_POLL_MS").map Bus.Settings.raisePoll).getD
      base.idlePoll
    slowListener := (e.unsigned? "SIRIO_BUS_SLOW_LISTENER_MS").getD base.slowListener }

/-- The texts of a list with commas, without blanks around them; empty
ones are dropped. -/
def parseNames (raw : String) : List String :=
  (((Text.split ',' raw.toList).map Text.trimChars).filter fun n => !n.isEmpty).map String.ofList

/-- The access service of an environment. Lifetimes are given in
seconds. -/
def accessOfEnvironment (e : Environment) : Access.Settings :=
  let base : Access.Settings := {}
  { tokenTtl := ((e.unsigned? "SIRIO_AUTH_TOKEN_TTL_SECS").map (· * 1000)).getD base.tokenTtl
    csrfTtl := ((e.unsigned? "SIRIO_AUTH_CSRF_TTL_SECS").map (· * 1000)).getD base.csrfTtl
    anonymousUser := (e.optional? "SIRIO_AUTH_ANONYMOUS_USER").getD base.anonymousUser
    magicUsers := ((e.text? "SIRIO_AUTH_MAGIC_USERS").map parseNames).getD base.magicUsers
    magicSecret := (e.text? "SIRIO_AUTH_MAGIC_SECRET").getD base.magicSecret
    application := (e.text? "SIRIO_AUTH_APP_UUID").getD base.application
    keystore := (e.optional? "SIRIO_AUTH_KEYSTORE_DIR").getD base.keystore }

namespace Settings

/-- The parameters of an environment. -/
def ofEnvironment (e : Environment) : Settings :=
  { logging := .ofEnvironment e
    bus := busOfEnvironment e
    lockTypes := ((e.text? "SIRIO_LOCK_TYPES").map Lock.TypeDecl.parseAll).getD []
    access := accessOfEnvironment e
    users := ((e.text? "SIRIO_USERS").map UserDecl.parseAll).getD [] }

/-- Whether the parameters are fit for production. -/
def checkForProduction (s : Settings) : Except SettingsFault Unit :=
  if !s.access.magicUsers.isEmpty && s.access.magicSecret.isEmpty then .error .missingMagicSecret
  else if !s.access.magicUsers.isEmpty && s.access.application.isEmpty then
    .error .missingApplication
  else if s.access.keystore.isNone then .error .ephemeralKeystore
  else .ok ()

/-- The account of the anonymous user, if one is configured and not
declared. -/
def anonymousDecl? (s : Settings) : Option UserDecl :=
  s.access.anonymousUser.bind fun name =>
    if s.users.any fun d => d.name == name then none else some ⟨0, name, "", []⟩

/-- The directory of the declared users and the anonymous one. -/
def seedDirectory (s : Settings) : Access.Directory :=
  (s.users ++ s.anonymousDecl?.toList).foldl UserDecl.addTo {}

end Settings

end Backplane.Node
