import Backplane.Access.Cache
import Backplane.Access.Client
import Backplane.Access.Csrf
import Backplane.Access.Directory
import Backplane.Access.Settings

/-!
# `Backplane.Access.Service`: clients, sessions and their tokens

The service keeps the authenticated clients under their ids, the
anti-forgery tokens, and the users that sessions were announced to belong
to. Every client that comes or goes is announced; the announcements wait
in an outbox for whoever runs the service.

A client record outlives its cache entry, because callers may still hold
it. Records are therefore kept in a list and named by their place in it.
-/

set_option autoImplicit false

namespace Backplane.Access

/-- Names a client record by its place in the list of all of them. -/
abbrev ClientRef := Nat

/-- The news that a client came or went. -/
structure Announcement where
  /-- Whether it came. -/
  issued : Bool
  clientId : String
  userId : Int
  userName : String
  session : Option String
deriving Repr, DecidableEq

/-- The state of the access service. -/
structure Service where
  settings : Settings
  directory : Directory
  keys : Key.Store
  /-- The time in milliseconds since the start of 1970. -/
  clock : UInt64
  /-- The time of the machine, which goes by another clock. -/
  wallClock : Int := 0
  /-- Every client that was ever issued, by its reference. -/
  records : List Client := []
  clients : Cache String ClientRef
  csrf : Cache String String
  sessions : Table String Logon := ∅
  /-- News that nobody has taken yet, oldest first. -/
  outbox : List Announcement := []
  /-- Notices to attribute listeners, oldest first. -/
  notices : List Notice := []

namespace Service

/-- A service without clients. Lifetimes are cut to 64 bits. -/
def start (settings : Settings) (directory : Directory) (keys : Key.Store) (clock : UInt64) :
    Service :=
  { settings, directory, keys, clock,
    clients := .empty (.ofNat settings.tokenTtl)
    csrf := .empty (.ofNat settings.csrfTtl) }

/-- The time that is noted of a use: the clock as a signed count of
milliseconds, or the time of the machine if that is no date. -/
def now (s : Service) : Int :=
  let time := s.clock.toInt64.toInt
  if Text.Timestamp.isDate time then time else s.wallClock

/-- The record of a reference. -/
def record? (s : Service) (r : ClientRef) : Option Client := s.records[r]?

/-- Whether a record passes a test. -/
def holds (s : Service) (p : Client → Bool) (r : ClientRef) : Bool := (s.record? r).any p

/-- Changes the record of a reference. -/
def updateRecord (s : Service) (r : ClientRef) (f : Client → Client) : Service :=
  { s with records := s.records.modify r f }

/-- Notes the time of a use. -/
def touch (s : Service) (r : ClientRef) : Service := s.updateRecord r fun c => c.touch s.now

/-- Puts the news of a client into the outbox. -/
def announce (s : Service) (issued : Bool) (c : Client) : Service :=
  { s with outbox := s.outbox ++ [⟨issued, c.clientId, c.user.id, c.user.name, c.session⟩] }

/-- Clears a client that has left the cache and announces that it is
gone. -/
def discard (s : Service) (r : ClientRef) : Service :=
  match s.record? r with
  | none => s
  | some c =>
    let (c, notices) := c.clear
    ({ s with records := s.records.set r c, notices := s.notices ++ notices }).announce false c

/-- Clears and announces several clients. -/
def discardAll (s : Service) (rs : List ClientRef) : Service := rs.foldl discard s

/-! ### Authentication -/

/-- What makes a new logon the same as a live client. -/
inductive Matching where
  /-- The presented client id, if its client has the same user name. -/
  | clientId
  | userName
  | session
deriving Repr, DecidableEq

/-- The live client that a logon is the same as, with its lifetime
started anew, and the clients that the search found expired. -/
def findMatch (s : Service) (m : Matching) (clientId : String) (session : Option String)
    (user : User) : Option ClientRef × List ClientRef × Service :=
  match m with
  | .userName =>
    let (found, clients) := s.clients.find s.clock (s.holds fun c => c.user.name == user.name)
    (found, [], { s with clients })
  | .session =>
    let (found, clients) := s.clients.find s.clock (s.holds fun c => c.session == session)
    (found, [], { s with clients })
  | .clientId =>
    match s.clients.get clientId s.clock with
    | (.hit r, clients) =>
      let s := { s with clients }
      (if s.holds (fun c => c.user.name == user.name) r then some r else none, [], s)
    | (.expired r, clients) => (none, [r], { s with clients })
    | (.miss, clients) => (none, [], { s with clients })

/-- Makes a client, stores it under its id and announces it. Clients that
it replaces are discarded first. -/
def issue (s : Service) (clientId : String) (session : Option String) (user : User)
    (rights : Rights) (stale : List ClientRef) : ClientRef × Service :=
  let c := Client.logon clientId session user rights s.now
  let r := s.records.length
  -- Another user's live client may stand under the same id.
  let (replaced, clients) := s.clients.insert clientId r s.clock
  let s := { s with records := s.records ++ [c], clients }
  (r, (s.discardAll (stale ++ replaced.toList)).announce true c)

/-- Gives back the live client that a logon is the same as, or makes
one. -/
def authenticate (s : Service) (m : Matching) (clientId : String) (session : Option String)
    (user : User) : Except Error ClientRef × Service :=
  -- Rights come first: without them no lifetime starts anew.
  match s.directory.rights user with
  | .error e => (.error e, s)
  | .ok rights =>
    match s.findMatch m clientId session user with
    | (some r, _, s) => (.ok r, s.touch r)
    | (none, stale, s) =>
      let (r, s) := s.issue clientId session user rights stale
      (.ok r, s)

/-- Authenticates an anonymous client. -/
def addAnonymous (s : Service) (clientId : String) : Except Error ClientRef × Service :=
  match s.settings.anonymousUser with
  | none => (.error .anonymousDisabled, s)
  | some name =>
    match s.directory.byName name with
    | .error e => (.error e, s)
    | .ok none => (.error .anonymousDisabled, s)
    | .ok (some user) => s.authenticate .clientId clientId none user

/-- Whether a password is the alternate one of a user who may use it. -/
def acceptsMagic (s : Service) (name password : String) : Bool :=
  s.settings.isMagicUser name
    && Magic.verify name password s.settings.magicSecret s.settings.application

/-- The user whom credentials stand for: the directory's, or, with the
alternate password, the one of that name. -/
def userOfCredentials (s : Service) (name password : String) : Except Error User := do
  match ← s.directory.login name password with
  | some user => return user
  | none =>
    if s.acceptsMagic name password then
      match ← s.directory.byName name with
      | some user => return user
      | none => throw (.authenticationFailed name)
    else throw (.authenticationFailed name)

/-- Authenticates by name and password. -/
def addCredentials (s : Service) (name password clientId : String) :
    Except Error ClientRef × Service :=
  match s.userOfCredentials name password with
  | .error e => (.error e, s)
  | .ok user => s.authenticate .userName clientId none user

/-- Authenticates a user whom the caller vouches for. -/
def addUser (s : Service) (user : User) (clientId : String) : Except Error ClientRef × Service :=
  s.authenticate .userName clientId none user

/-- Authenticates as the user that a session was announced to belong
to. -/
def addSession (s : Service) (session clientId : String) : Except Error ClientRef × Service :=
  match s.sessions.get? session with
  | none => (.error (.unknownSession session), s)
  | some logon =>
    match s.directory.byId logon.userId with
    | .error e => (.error e, s)
    | .ok none => (.error (.unknownUser logon.userId), s)
    | .ok (some user) => s.authenticate .session clientId (some session) user

/-! ### Clients -/

/-- The client of an id, with its lifetime started anew. An expired one is
discarded. -/
def getClient (s : Service) (clientId : String) : Except Error ClientRef × Service :=
  match s.clients.get clientId s.clock with
  | (.hit r, clients) => (.ok r, ({ s with clients }).touch r)
  | (.expired r, clients) => (.error (.tokenExpired clientId), ({ s with clients }).discard r)
  | (.miss, clients) => (.error (.unknownToken clientId), { s with clients })

/-- Discards the client of an id and tells whether there was one. -/
def removeClient (s : Service) (clientId : String) : Bool × Service :=
  match s.clients.remove clientId with
  | (none, clients) => (false, { s with clients })
  | (some r, clients) => (true, ({ s with clients }).discard r)

/-- The live clients in the order of their ids. -/
def liveClients (s : Service) : List ClientRef := s.clients.live s.clock

/-- The live clients of a session. -/
def clientsOfSession (s : Service) (session : String) : List ClientRef :=
  s.liveClients.filter (s.holds fun c => c.session == some session)

/-- Discards all expired clients and drops all expired anti-forgery
tokens; gives back their number. -/
def purge (s : Service) : Nat × Service :=
  let (expired, clients) := s.clients.purge s.clock
  let (tokens, csrf) := s.csrf.purge s.clock
  (expired.length + tokens.length, ({ s with clients, csrf }).discardAll expired)

/-! ### Bearer tokens -/

/-- The bearer token of a client for an address. -/
def encryptToken (s : Service) (address : String) (c : Client) : String :=
  Bearer.encode s.keys.seed ⟨c.clientId, c.user.name, address, s.clock⟩

/-- The claims of a bearer token that is used from an address. -/
def decryptToken (s : Service) (address token : String) : Except Error Bearer.Claims := do
  let claims ← (Bearer.decode s.keys.publicKey token).mapError .invalidToken
  claims.checkAddress address
  return claims

/-- The client that a bearer token names, provided that it still belongs
to the token's user. -/
def clientOfToken (s : Service) (address token : String) : Except Error ClientRef × Service :=
  match s.decryptToken address token with
  | .error e => (.error e, s)
  | .ok claims =>
    match s.getClient claims.clientId with
    | (.error e, s) => (.error e, s)
    | (.ok r, s) =>
      match s.record? r with
      | none => (.error (.unknownToken claims.clientId), s)
      | some c =>
        if c.user.name = claims.user then (.ok r, s)
        else (.error (.invalidToken (.foreignClient claims.user c.user.name)), s)

/-! ### Anti-forgery tokens -/

/-- Issues an anti-forgery token of random bytes to a session. -/
def issueCsrf (s : Service) (session : String) (random : List UInt8) : String × Service :=
  let token := csrfToken random
  (token, { s with csrf := (s.csrf.insert token session s.clock).2 })

/-- Checks an anti-forgery token that a session presents; a good one is
used up if asked. -/
def checkCsrf (s : Service) (token session : String) (consume : Bool) : CsrfCheck × Service :=
  match s.csrf.peek token s.clock with
  | (.hit owner, csrf) =>
    if owner ≠ session then (.sessionMismatch, { s with csrf })
    else (.valid, { s with csrf := if consume then (csrf.remove token).2 else csrf })
  | (_, csrf) => (.unknownToken, { s with csrf })

/-! ### Sessions -/

/-- Notes the user that a session belongs to. -/
def registerLogon (s : Service) (session : String) (logon : Logon) : Service :=
  { s with sessions := s.sessions.insert session logon }

/-- Forgets a session and discards its clients; gives back their
number. -/
def registerLogout (s : Service) (session : String) : Nat × Service :=
  let gone := s.clients.removeWhere (s.holds fun c => c.session == some session)
  let s := { s with sessions := s.sessions.erase session, clients := gone.2 }
  (gone.1.length, s.discardAll gone.1)

/-- The user that a session belongs to. -/
def sessionLogon? (s : Service) (session : String) : Option Logon := s.sessions.get? session

/-! ### Attributes -/

/-- Stores an attribute of a client. -/
def setAttribute (s : Service) (r : ClientRef) (name : String) (a : Attribute) : Bool × Service :=
  match s.record? r with
  | none => (false, s)
  | some c =>
    let (done, c, notices) := c.setAttribute name a
    (done, { s with records := s.records.set r c, notices := s.notices ++ notices })

/-- Drops an attribute of a client. -/
def removeAttribute (s : Service) (r : ClientRef) (name : String) : Option Attribute × Service :=
  match s.record? r with
  | none => (none, s)
  | some c =>
    let (old, c, notices) := c.removeAttribute name
    (old, { s with records := s.records.set r c, notices := s.notices ++ notices })

/-- Drops all attributes of a client for good. -/
def clearAttributes (s : Service) (r : ClientRef) : Service :=
  match s.record? r with
  | none => s
  | some c =>
    let (c, notices) := c.clear
    { s with records := s.records.set r c, notices := s.notices ++ notices }

end Service

end Backplane.Access
