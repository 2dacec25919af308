import Backplane.Access.Service
import Backplane.Proofs.Access.Persistence
import Backplane.Proofs.Text.Base64

/-!
# `Backplane.Proofs.Access.Bearer`: tokens that read back

A token is three layers: the JSON text of the claims, base 64 over its
bytes and over the signature, and a dot between the two. Each layer is
undone by its own law, and the layers do not get in each other's way: no
symbol of base 64 is a dot, and neither a symbol nor a dot is a blank.
The main statements:

* `Bearer.Spells.openToken`: a token that spells a payload and a signature
  which fits opens to this payload.
* `openToken_mint`: a token that was made does so, with any blanks around it.
* `claims_payload`: the payload of claims is read as these claims.
* `token_round_trip`: decoding gives back the claims that were encoded.
-/

set_option autoImplicit false

namespace Backplane.Access

open Text (trimChars splitFirst isBlank)

/-! ### The layers of a token -/

/-- The characters of unpadded base 64 for addresses are neither dots nor
blanks. -/
theorem encodeChars_plain {bytes : List UInt8} {c : Char}
    (h : c ∈ Text.Base64.encodeChars .url .never bytes) : c ≠ '.' ∧ isBlank c = false := by
  have hsymbols : ∀ v < 64, Text.Base64.Alphabet.url.symbol v ≠ '.'
      ∧ isBlank (Text.Base64.Alphabet.url.symbol v) = false := by decide
  rcases Text.Base64.mem_encodeChars h with ⟨v, hv, rfl⟩ | rfl
  · exact hsymbols v hv
  · decide

/-- The text of a payload and a signature. -/
def Bearer.spelling (payload signature : List UInt8) : List Char :=
  Text.Base64.encodeChars .url .never payload
    ++ '.' :: Text.Base64.encodeChars .url .never signature

/-- The characters of a token. -/
theorem toList_mint (seed payload : List UInt8) :
    (Bearer.mint seed payload).toList = Bearer.spelling payload (Ed25519.sign seed payload) := by
  simp [Bearer.mint, Text.Base64.encode, Bearer.spelling]

/-- Blanks around a payload and its signature are dropped, and nothing else. -/
theorem trimChars_spelling (payload signature : List UInt8) {pre post : List Char}
    (hpre : ∀ c ∈ pre, isBlank c = true) (hpost : ∀ c ∈ post, isBlank c = true) :
    trimChars (pre ++ Bearer.spelling payload signature ++ post)
      = Bearer.spelling payload signature := by
  have hplain : ∀ c ∈ Bearer.spelling payload signature, isBlank c = false := by
    intro c hc
    rcases List.mem_append.mp hc with hc | hc
    · exact (encodeChars_plain hc).2
    · rcases List.mem_cons.mp hc with rfl | hc
      · decide
      · exact (encodeChars_plain hc).2
  exact Text.trimChars_eq hpre (fun c hc => hplain c (List.mem_of_mem_head? hc))
    (fun c hc => hplain c (List.mem_of_mem_getLast? hc)) hpost

/-- A text is cut at its only dot. -/
theorem splitFirst_spelling (payload signature : List UInt8) :
    splitFirst '.' (Bearer.spelling payload signature)
      = some (Text.Base64.encodeChars .url .never payload,
          Text.Base64.encodeChars .url .never signature) :=
  Text.splitFirst_eq_some.mpr ⟨rfl, fun h => (encodeChars_plain h).1 rfl⟩

/-- A token has a payload and a signature of 64 bytes, which fits the key. -/
structure Bearer.Spells (key : List UInt8) (token : String) (payload signature : List UInt8) :
    Prop where
  text_eq : trimChars token.toList = Bearer.spelling payload signature
  length_eq : signature.length = 64
  verified : Ed25519.verify key payload signature = true

/-- A token whose signature fits opens to its payload. -/
theorem Bearer.Spells.openToken {key payload signature : List UInt8} {token : String}
    (h : Bearer.Spells key token payload signature) : Bearer.openToken key token = .ok payload := by
  have hpayload : Text.Base64.decode .url .never
      (Bearer.bytesOf (Text.Base64.encodeChars .url .never payload)) = .ok payload :=
    Text.Base64.decode_encode .never payload
  have hsignature : Text.Base64.decode .url .never
      (Bearer.bytesOf (Text.Base64.encodeChars .url .never signature)) = .ok signature :=
    Text.Base64.decode_encode .never signature
  rw [Bearer.openToken, h.text_eq, splitFirst_spelling]
  simp only
  rw [hpayload, hsignature]
  show (do
    if signature.length ≠ 64 then throw Bearer.Fault.signatureLength
    if !Ed25519.verify key payload signature then throw Bearer.Fault.signatureMismatch
    return payload) = Except.ok payload
  rw [h.length_eq, h.verified]
  rfl

/-- A token that was made opens to its payload, with any blanks around it, if
the key accepts the signature. -/
theorem openToken_mint {seed key payload : List UInt8}
    (h : Ed25519.verify key payload (Ed25519.sign seed payload) = true) {pre post : List Char}
    (hpre : ∀ c ∈ pre, isBlank c = true) (hpost : ∀ c ∈ post, isBlank c = true) :
    Bearer.openToken key (String.ofList pre ++ Bearer.mint seed payload ++ String.ofList post)
      = .ok payload := by
  have hlist : (String.ofList pre ++ Bearer.mint seed payload ++ String.ofList post).toList
      = pre ++ Bearer.spelling payload (Ed25519.sign seed payload) ++ post := by
    simp [toList_mint]
  refine Bearer.Spells.openToken ⟨?_, Ed25519.length_sign seed payload, h⟩
  rw [hlist, trimChars_spelling _ _ hpre hpost]

/-! ### Claims -/

/-- The payload of claims is read as these claims. -/
theorem claims_payload (c : Bearer.Claims) :
    (Json.Tree.ofBytes? c.payload).bind Bearer.Claims.ofTree? = some c :=
  Bearer.Claims.builtBy_ofFields?.faithful.compact c trivial

/-- A token whose signature fits decodes to its claims. -/
theorem Bearer.decode_encode {seed key : List UInt8} {c : Bearer.Claims}
    (h : Ed25519.verify key c.payload (Ed25519.sign seed c.payload) = true) {pre post : List Char}
    (hpre : ∀ x ∈ pre, isBlank x = true) (hpost : ∀ x ∈ post, isBlank x = true) :
    Bearer.decode key (String.ofList pre ++ Bearer.encode seed c ++ String.ofList post)
      = .ok c := by
  rw [Bearer.decode, Bearer.encode, openToken_mint h hpre hpost]
  simp only [bind, Except.bind, claims_payload]
  rfl

/-- Claims may be used from the address that they were issued to. -/
theorem checkAddress_self (c : Bearer.Claims) : c.checkAddress c.address = .ok () := by
  rw [Bearer.Claims.checkAddress, Bearer.Claims.admits, beq_self_eq_true, Bool.or_true, if_pos rfl]

/-- Decoding gives back the claims that were encoded, with any blanks
around the token, if the key accepts the signature that its own seed
makes of the claims. So a service reads its own tokens: from the address
that a token was issued to, it reads the client's id, the name of the
user, that address and the time of issue, at any later time `s'` of the
service. -/
theorem token_round_trip {keys : Key.Store} {c : Bearer.Claims}
    (haccepts : Ed25519.verify keys.publicKey c.payload (Ed25519.sign keys.seed c.payload) = true) :
    (∀ pre post : List Char, (∀ x ∈ pre, isBlank x = true) → (∀ x ∈ post, isBlank x = true) →
      Bearer.decode keys.publicKey
        (String.ofList pre ++ Bearer.encode keys.seed c ++ String.ofList post) = .ok c)
    ∧ ∀ (s s' : Service) (item : Client) (address : String), s.keys = keys → s'.keys = keys →
      c = ⟨item.clientId, item.user.name, address, s.clock⟩ →
      s'.decryptToken address (s.encryptToken address item)
        = .ok ⟨item.clientId, item.user.name, address, s.clock⟩ := by
  refine ⟨fun pre post hpre hpost => Bearer.decode_encode haccepts hpre hpost, ?_⟩
  rintro s s' item address rfl hkeys rfl
  have hdecode : Bearer.decode s'.keys.publicKey (s.encryptToken address item)
      = .ok ⟨item.clientId, item.user.name, address, s.clock⟩ := by
    -- no blanks around the token
    have hplain : Bearer.decode s.keys.publicKey
        (String.ofList [] ++ s.encryptToken address item ++ String.ofList [])
          = .ok ⟨item.clientId, item.user.name, address, s.clock⟩ :=
      Bearer.decode_encode haccepts (by simp) (by simp)
    rw [hkeys]
    simpa using hplain
  rw [Service.decryptToken, hdecode]
  show (do
    let _ ← (⟨item.clientId, item.user.name, address, s.clock⟩ : Bearer.Claims).checkAddress address
    return (⟨item.clientId, item.user.name, address, s.clock⟩ : Bearer.Claims)) = Except.ok _
  rw [checkAddress_self ⟨item.clientId, item.user.name, address, s.clock⟩]
  rfl

/-- Claims with quotes, a backslash, dots, control characters, characters
of two, three and four bytes, and the last moment of the clock. -/
def oddClaims : Bearer.Claims :=
  ⟨"a\"b\\c.\n\u0001", "grüße €", "😀.", 18446744073709551615⟩

/-- A service at that moment, with a key pair of a constant seed. -/
def oddService : Service :=
  { Service.start .trial {} ⟨List.replicate 32 7⟩ 0 with clock := 18446744073709551615 }

/-- The client that the claims are about. -/
def oddClient : Client :=
  .logon oddClaims.clientId none { id := 1, name := oddClaims.user } {} 0

theorem token_round_trip_oddClaims :
    Ed25519.verify oddService.keys.publicKey oddClaims.payload
        (Ed25519.sign oddService.keys.seed oddClaims.payload) = true
      ∧ Bearer.decode oddService.keys.publicKey
        (String.ofList ['\t', ' '] ++ Bearer.encode oddService.keys.seed oddClaims
          ++ String.ofList ['\n']) = .ok oddClaims
      ∧ oddService.decryptToken "😀." (oddService.encryptToken "😀." oddClient)
        = .ok ⟨oddClient.clientId, oddClient.user.name, "😀.", 18446744073709551615⟩ := by
  have haccepts : Ed25519.verify oddService.keys.publicKey oddClaims.payload
      (Ed25519.sign oddService.keys.seed oddClaims.payload) = true := by decide +kernel
  obtain ⟨hdecode, hservice⟩ := token_round_trip haccepts
  exact ⟨haccepts, hdecode ['\t', ' '] ['\n'] (by simp [isBlank]) (by simp [isBlank]),
    hservice oddService oddService oddClient "😀." rfl rfl rfl⟩

end Backplane.Access
