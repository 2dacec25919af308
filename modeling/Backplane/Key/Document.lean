import Backplane.Ed25519.Signature
import Backplane.Key.Armor
import Backplane.Key.Der

/-!
# `Backplane.Key.Document`: written forms of a key pair

A private key is a sequence of a version, the algorithm, the seed in two
nested octet strings, and in the second version the public key, which
then has to be the one of the seed. A public key is a sequence of the
algorithm and a bit string. Both are armoured with a label of their own.
-/

set_option autoImplicit false

namespace Backplane.Key

namespace Document

/-- The label of a private key. -/
def privateLabel : String := "PRIVATE KEY"

/-- The label of a public key. -/
def publicLabel : String := "PUBLIC KEY"

/-- The object identifier of the signature algorithm. -/
def algorithm : Der.Element := ⟨0x06, [0x2B, 0x65, 0x70]⟩

/-- A sequence of elements. -/
def sequence (es : List Der.Element) : Der.Element := ⟨0x30, es.flatMap Der.Element.encode⟩

/-- The elements of a sequence. -/
def sequence? (e : Der.Element) : Option (List Der.Element) :=
  if e.tag = 0x30 then Der.readAll? e.content else none

/-- The elements of a sequence that fills a byte string. -/
def ofBytes? (bytes : List UInt8) : Option (List Der.Element) :=
  match Der.readAll? bytes with
  | some [e] => sequence? e
  | _ => none

/-- Whether an element names the signature algorithm, without
parameters. -/
def isAlgorithm (e : Der.Element) : Bool := sequence? e == some [algorithm]

/-- The bytes of a bit string without unused bits. -/
def bits? : List UInt8 → Option (List UInt8)
  | 0 :: bytes => some bytes
  | _ => none

/-- Whether an element has a tag of its context. -/
def isContextual (e : Der.Element) : Bool := e.tag &&& 0xC0 == 0x80

/-- Whether an element is a contextual tag around one other element. -/
def isExplicit (e : Der.Element) : Bool :=
  isContextual e && e.tag &&& 0x20 == 0x20 && ((Der.readAll? e.content).map List.length == some 1)

/-- The public key among the elements behind the seed, which are
attributes, the public key, and extensions. -/
def embeddedPublic? : List Der.Element → Option (Option (List UInt8))
  | [] => some none
  | e :: rest =>
    if !isContextual e then none
    else if e.tag &&& 0x1F == 0 then embeddedPublic? rest
    else if e.tag &&& 0x1F == 1 then
      if e.tag = 0x81 ∧ rest.all isExplicit then (bits? e.content).map some else none
    else if (e :: rest).all isExplicit then some none
    else none

/-- The seed of an octet string within an octet string. -/
def seed? : List UInt8 → Option (List UInt8)
  | 0x04 :: 0x20 :: bytes => if bytes.length = 32 then some bytes else none
  | _ => none

/-- The seed of a private key document. -/
def seedOf? : List Der.Element → Option (List UInt8)
  | ⟨0x02, [version]⟩ :: name :: ⟨0x04, key⟩ :: rest => do
    let embedded ← embeddedPublic? rest
    let seed ← seed? key
    let agrees : Bool := match embedded with
      | none => version = 0
      | some stated => version = 1 ∧ stated = Ed25519.publicKey seed
    if isAlgorithm name ∧ agrees then some seed else none
  | _ => none

/-- The public key of a public key document, which has to be the written
form of a point. -/
def publicOf? : List Der.Element → Option (List UInt8)
  | [name, ⟨0x03, content⟩] => do
    let key ← bits? content
    if isAlgorithm name ∧ (Ed25519.Point.decode? key).isSome then some key else none
  | _ => none

end Document

open Document

/-- The armoured private key of a seed, with its public key. -/
def privateText (seed : List UInt8) : String :=
  Armor.encode privateLabel <| Der.Element.encode <| sequence
    [⟨0x02, [1]⟩, sequence [algorithm], ⟨0x04, (⟨0x04, seed⟩ : Der.Element).encode⟩,
      ⟨0x81, 0 :: Ed25519.publicKey seed⟩]

/-- The armoured form of a public key. -/
def publicText (key : List UInt8) : String :=
  Armor.encode publicLabel <| Der.Element.encode <| sequence
    [sequence [algorithm], ⟨0x03, 0 :: key⟩]

/-- The seed of an armoured private key. -/
def readPrivate? (text : String) : Option (List UInt8) :=
  (Armor.decode? privateLabel text).bind fun bytes => (ofBytes? bytes).bind seedOf?

/-- The bytes of an armoured public key. -/
def readPublic? (text : String) : Option (List UInt8) :=
  (Armor.decode? publicLabel text).bind fun bytes => (ofBytes? bytes).bind publicOf?

end Backplane.Key
