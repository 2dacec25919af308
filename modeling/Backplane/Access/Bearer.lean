import Backplane.Ed25519.Signature
import Backplane.Json.Printer
import Backplane.Json.Record
import Backplane.Net.Address
import Backplane.Text.Base64
import Backplane.Text.Split

/-!
# `Backplane.Access.Bearer`: signed tokens of a client

A token is the JSON text of its claims and a signature over that text,
both in unpadded base 64 with a dot between them. Whoever holds a token
can read the claims; only the holder of the key can make one.
-/

set_option autoImplicit false

namespace Backplane.Access.Bearer

/-- What a token says of the client it was made for. -/
structure Claims where
  clientId : String
  user : String
  /-- The address that the token was issued to. -/
  address : String
  /-- The time of issue in milliseconds. -/
  time : UInt64
deriving Repr, DecidableEq

/-- Why a token is refused. -/
inductive Fault where
  /-- There is no dot. -/
  | missingSignature
  | claimsEncoding (e : Text.Base64.DecodeError)
  | signatureEncoding (e : Text.Base64.DecodeError)
  /-- The signature has not 64 bytes. -/
  | signatureLength
  | signatureMismatch
  /-- The signed text is no JSON text of claims. -/
  | claimsText
  /-- The client belongs to another user than the token says. -/
  | foreignClient (user owner : String)
deriving Repr, DecidableEq

/-- The text of a fault. -/
def Fault.message : Fault → String
  | missingSignature => "missing signature"
  | claimsEncoding e => "claims: " ++ e.message
  | signatureEncoding e => "signature: " ++ e.message
  | signatureLength => "signature length"
  | signatureMismatch => "signature mismatch"
  | claimsText => "claims are not valid JSON"
  | foreignClient user owner => "token for " ++ user ++ " names client of " ++ owner

namespace Claims

/-- The claims as a JSON object, its members in declaration order. -/
def toJson (c : Claims) : Json :=
  .object [("idclient", .string c.clientId), ("user", .string c.user),
    ("address", .string c.address), ("time", .ofInt c.time.toNat)]

/-- Reads claims; all fields have to be there. -/
def ofTree? (t : Json.Tree) : Option Claims := do
  match ← t.fields? ["idclient", "user", "address", "time"] with
  | [some clientId, some user, some address, some time] =>
    return ⟨← clientId.text?, ← user.text?, ← address.text?, .ofNat (← time.unsigned?)⟩
  | _ => none

/-- The bytes that are signed. -/
def payload (c : Claims) : List UInt8 := c.toJson.render.toUTF8.data.toList

/-- Whether the claims may be used from an address: the one they were
issued to, or the own machine. -/
def admits (c : Claims) (address : String) : Bool :=
  Net.isLoopback address || c.address == address

end Claims

/-- The token of a payload under a key. -/
def mint (seed payload : List UInt8) : String :=
  Text.Base64.encode .url .never payload ++ "."
    ++ Text.Base64.encode .url .never (Ed25519.sign seed payload)

/-- The token of claims under a key. -/
def encode (seed : List UInt8) (c : Claims) : String := mint seed c.payload

/-- The bytes of a text. -/
def bytesOf (cs : List Char) : List UInt8 := (String.ofList cs).toUTF8.data.toList

/-- The payload of a token whose signature fits the public key. -/
def openToken (key : List UInt8) (token : String) : Except Fault (List UInt8) :=
  match Text.splitFirst '.' (Text.trimChars token.toList) with
  | none => .error .missingSignature
  | some (first, second) => do
    let payload ← (Text.Base64.decode .url .never (bytesOf first)).mapError .claimsEncoding
    let signature ← (Text.Base64.decode .url .never (bytesOf second)).mapError .signatureEncoding
    if signature.length ≠ 64 then throw .signatureLength
    if !Ed25519.verify key payload signature then throw .signatureMismatch
    return payload

/-- The claims of a token whose signature fits the public key. -/
def decode (key : List UInt8) (token : String) : Except Fault Claims := do
  let payload ← openToken key token
  match (Json.Tree.ofBytes? payload).bind Claims.ofTree? with
  | none => throw .claimsText
  | some c => return c

end Backplane.Access.Bearer
