import Backplane.Proofs.Access.Bearer
import Backplane.Proofs.Text.Spelling
import Mathlib.Logic.Basic

/-!
# `Backplane.Proofs.Access.Spelling`: one text for each token

`Backplane.Proofs.Access.Bearer` reads the tokens that were made. Here any
text is presented as a token. `Bearer.spelling` is the only text that two
byte strings have as a payload and a signature, so a token that is accepted
has the spelling of what was verified: nobody can write a token of somebody
else in a second way. The main statements:

* `parts?_eq_some_iff`: the parts of a token are those that it spells.
* `openToken_eq_ok_iff`: a token is opened if and only if it spells a payload
  and a signature of 64 bytes that fits the key.
* `Flawed.ne_spelling`: a text with a flaw spells nothing that has a
  signature.
* `one_spelling`: which texts are decoded, as which claims, and which are
  refused.
-/

set_option autoImplicit false

namespace Backplane.Access.Bearer

open Text (trimChars splitFirst)
open Text.Base64 (encodeChars sextets)

/-- The bytes in front of the first dot of a text and those behind it, as far
as they are there. -/
def partsOf? (text : List Char) : Option (List UInt8 × List UInt8) :=
  (splitFirst '.' text).bind fun (first, second) =>
    match Text.Base64.decode .url .never (bytesOf first),
      Text.Base64.decode .url .never (bytesOf second) with
    | .ok payload, .ok signature => some (payload, signature)
    | _, _ => none

/-- The payload and the signature that a token is made of. -/
def parts? (token : String) : Option (List UInt8 × List UInt8) :=
  partsOf? (trimChars token.toList)

/-- A text ends with a symbol that has bits which no byte takes. -/
def Frays (part : List Char) : Prop :=
  ∃ v < 64, part.getLast? = some (Text.Base64.Alphabet.url.symbol v) ∧
    (part.length % 4 = 2 ∧ v % 16 ≠ 0 ∨ part.length % 4 = 3 ∧ v % 4 ≠ 0)

/-- What can be wrong with the text of a token, before any key is asked. -/
inductive Flawed (text : List Char) : Prop where
  | padded (h : '=' ∈ text)
  | foreign {c : Char} (hc : c ∈ text) (hdot : c ≠ '.')
      (hsymbol : ∀ v < 64, c ≠ Text.Base64.Alphabet.url.symbol v)
  | secondDot (h : 2 ≤ text.count '.')
  | spareBits {first second : List Char} (htext : text = first ++ '.' :: second)
      (h : Frays first ∨ Frays second)
  | signatureLength {first : List Char} {signature : List UInt8}
      (htext : text = first ++ '.' :: encodeChars .url .never signature)
      (h : signature.length ≠ 64)

/-! ### The parts of a token -/

/-- The text of bytes is decoded to these bytes, and no other text is. -/
theorem decode_bytesOf {cs : List Char} {bytes : List UInt8} :
    Text.Base64.decode .url .never (bytesOf cs) = .ok bytes ↔ cs = encodeChars .url .never bytes :=
  Text.Base64.decode_eq_ok_iff

/-- The parts of a text are those that it spells. -/
theorem partsOf?_eq_some_iff {text : List Char} {payload signature : List UInt8} :
    partsOf? text = some (payload, signature) ↔ text = spelling payload signature := by
  constructor
  · intro h
    obtain ⟨⟨first, second⟩, hsplit, h⟩ := Option.bind_eq_some_iff.mp h
    have htext := (Text.splitFirst_eq_some.mp hsplit).1
    simp only at h
    split at h
    · rename_i hfirst hsecond
      cases h
      rw [htext, decode_bytesOf.mp hfirst, decode_bytesOf.mp hsecond, spelling]
    · cases h
  · intro h
    have hfirst := decode_bytesOf.mpr (rfl : encodeChars .url .never payload = _)
    have hsecond := decode_bytesOf.mpr (rfl : encodeChars .url .never signature = _)
    rw [h, partsOf?, splitFirst_spelling, Option.bind_some]
    simp only [hfirst, hsecond]

/-- The parts of a token are those that it spells, with any blanks around
them. -/
theorem parts?_eq_some_iff {token : String} {payload signature : List UInt8} :
    parts? token = some (payload, signature) ↔
      trimChars token.toList = spelling payload signature :=
  partsOf?_eq_some_iff

/-- Different parts are spelled differently. -/
theorem spelling_injective {payload payload' signature signature' : List UInt8}
    (h : spelling payload signature = spelling payload' signature') :
    payload = payload' ∧ signature = signature' := by
  have hread := partsOf?_eq_some_iff.mpr h
  rw [partsOf?_eq_some_iff.mpr rfl] at hread
  exact Prod.mk.inj (Option.some.inj hread)

/-! ### Tokens that are opened -/

/-- A token is opened if and only if it spells a payload and a signature of 64
bytes that fits the key, and what is opened is this payload. -/
theorem openToken_eq_ok_iff {key payload : List UInt8} {token : String} :
    openToken key token = .ok payload ↔ ∃ signature, Spells key token payload signature := by
  constructor
  · intro h
    rw [openToken] at h
    split at h
    · cases h
    · rename_i first second hsplit
      have htext := (Text.splitFirst_eq_some.mp hsplit).1
      obtain ⟨bytes, hfirst, h⟩ := bind_eq_ok.mp h
      obtain ⟨signature, hsecond, h⟩ := bind_eq_ok.mp h
      by_cases hlength : signature.length ≠ 64
      · rw [if_pos hlength] at h
        cases h
      rw [if_neg hlength] at h
      by_cases hverify : (!Ed25519.verify key bytes signature) = true
      · rw [if_pos hverify] at h
        cases h
      rw [if_neg hverify] at h
      cases h
      rw [decode_bytesOf.mp (mapError_eq_ok.mp hfirst),
        decode_bytesOf.mp (mapError_eq_ok.mp hsecond)] at htext
      exact ⟨signature, htext, not_not.mp hlength, by simpa using hverify⟩
  · rintro ⟨signature, h⟩
    exact h.openToken

/-- A token is decoded if and only if it is opened and its payload is read as
the claims. -/
theorem decode_eq_ok_iff {key : List UInt8} {token : String} {c : Claims} :
    decode key token = .ok c ↔ ∃ payload, openToken key token = .ok payload ∧
      (Json.Tree.ofBytes? payload).bind Claims.ofTree? = some c := by
  rw [decode, bind_eq_ok]
  refine exists_congr fun payload => and_congr_right fun _ => ?_
  cases (Json.Tree.ofBytes? payload).bind Claims.ofTree? with
  | none =>
    constructor <;>
    · intro h
      cases h
  | some c' =>
    constructor <;>
    · intro h
      cases h
      rfl

/-! ### Texts with a flaw -/

/-- The text of a part holds symbols and nothing else. -/
theorem mem_part {bytes : List UInt8} {c : Char} (h : c ∈ encodeChars .url .never bytes) :
    ∃ v < 64, c = Text.Base64.Alphabet.url.symbol v := by
  rw [encodeChars, List.append_nil] at h
  obtain ⟨v, hv, rfl⟩ := List.mem_map.mp h
  exact ⟨v, Text.Base64.sextets_lt bytes v hv, rfl⟩

/-- The text of a token holds symbols and dots and nothing else. -/
theorem mem_spelling {payload signature : List UInt8} {c : Char}
    (h : c ∈ spelling payload signature) :
    c = '.' ∨ ∃ v < 64, c = Text.Base64.Alphabet.url.symbol v := by
  rcases List.mem_append.mp h with h | h
  · exact .inr (mem_part h)
  · rcases List.mem_cons.mp h with h | h
    · exact .inl h
    · exact .inr (mem_part h)

/-- No part of a token holds a dot. -/
theorem count_dot_part (bytes : List UInt8) : (encodeChars .url .never bytes).count '.' = 0 :=
  List.count_eq_zero.mpr fun h => (encodeChars_plain h).1 rfl

/-- A token holds one dot. -/
theorem count_dot_spelling (payload signature : List UInt8) :
    (spelling payload signature).count '.' = 1 := by
  rw [spelling, List.count_append, List.count_cons_self, count_dot_part, count_dot_part]

/-- However a token is cut at a dot, its parts come out. -/
theorem parts_of_spelling {payload signature : List UInt8} {first second : List Char}
    (h : spelling payload signature = first ++ '.' :: second) :
    first = encodeChars .url .never payload ∧ second = encodeChars .url .never signature := by
  -- there is no second dot, so the cut is the first one
  have hcount := count_dot_spelling payload signature
  rw [h, List.count_append, List.count_cons_self] at hcount
  have hfirst : '.' ∉ first := List.count_eq_zero.mp (by omega)
  have hsplit : splitFirst '.' (spelling payload signature) = some (first, second) :=
    Text.splitFirst_eq_some.mpr ⟨h, hfirst⟩
  rw [splitFirst_spelling] at hsplit
  exact ⟨(Prod.mk.inj (Option.some.inj hsplit)).1.symm, (Prod.mk.inj (Option.some.inj hsplit)).2.symm⟩

/-- No part of a token ends with bits which no byte takes. -/
theorem not_frays (bytes : List UInt8) : ¬ Frays (encodeChars .url .never bytes) := by
  rintro ⟨v, hv, hlast, hspare⟩
  rw [encodeChars, List.append_nil, List.getLast?_map, Option.map_eq_some_iff] at hlast
  obtain ⟨w, hw, hsymbol⟩ := hlast
  obtain rfl : w = v := Text.Base64.symbol_injective
    (Text.Base64.sextets_lt bytes w (List.mem_of_getLast? hw)) hv hsymbol
  have hnone := Text.Base64.getLast_sextets bytes w hw
  rw [encodeChars, List.append_nil, List.length_map] at hspare
  rcases hspare with ⟨hmod, hbits⟩ | ⟨hmod, hbits⟩
  · exact hbits (hnone.1 hmod)
  · exact hbits (hnone.2 hmod)

/-- A text with a flaw is not the text of a payload and a signature of 64
bytes. -/
theorem Flawed.ne_spelling {text : List Char} (h : Flawed text) {payload signature : List UInt8}
    (hlength : signature.length = 64) : text ≠ spelling payload signature := by
  rintro rfl
  cases h with
  | padded h =>
    rcases mem_spelling h with h | ⟨v, hv, h⟩
    · exact absurd h (by decide)
    · have hnever : ∀ v < 64, '=' ≠ Text.Base64.Alphabet.url.symbol v := by decide
      exact hnever v hv h
  | foreign hc hdot hsymbol =>
    rcases mem_spelling hc with h | ⟨v, hv, h⟩
    · exact hdot h
    · exact hsymbol v hv h
  | secondDot h =>
    rw [count_dot_spelling] at h
    omega
  | spareBits htext h =>
    have hparts := parts_of_spelling htext
    rcases h with h | h
    · exact not_frays payload (hparts.1 ▸ h)
    · exact not_frays signature (hparts.2 ▸ h)
  | @signatureLength _ signature' htext h =>
    have hsecond := decode_bytesOf.mpr (parts_of_spelling htext).2
    have hsame := decode_bytesOf.mpr (rfl : encodeChars .url .never signature' = _)
    rw [hsame] at hsecond
    cases hsecond
    exact h hlength

/-- A token with a flaw is not opened. -/
theorem openToken_of_flawed {key : List UInt8} {token : String}
    (h : Flawed (trimChars token.toList)) (payload : List UInt8) :
    openToken key token ≠ .ok payload := by
  intro hopen
  obtain ⟨signature, hspells⟩ := openToken_eq_ok_iff.mp hopen
  exact h.ne_spelling hspells.length_eq hspells.text_eq

/-- A service that cannot decode a token refuses it, with the same fault. -/
theorem decryptToken_of_error {s : Service} {token : String} {fault : Fault}
    (h : decode s.keys.publicKey token = .error fault) (address : String) :
    s.decryptToken address token = .error (.invalidToken fault) := by
  rw [Service.decryptToken, h]
  rfl

/-- A token is decoded to claims if and only if it spells a payload and a signature
of 64 bytes, the key accepts the signature of just this payload, and just this
payload is the text of the claims; and it spells nothing else. So two tokens that
are decoded and have the same payload and signature are the same text, up to
blanks around it; and a text with padding, foreign characters, spare bits, a second
dot or a signature of another length is refused as an invalid token, whoever
presents it. -/
theorem one_spelling (key : List UInt8) (token : String) :
    (∀ c, decode key token = .ok c ↔ ∃ payload signature, Spells key token payload signature ∧
      (Json.Tree.ofBytes? payload).bind Claims.ofTree? = some c ∧
      ∀ payload' signature', trimChars token.toList = spelling payload' signature' →
        payload' = payload ∧ signature' = signature)
    ∧ (∀ token' c c', decode key token = .ok c → decode key token' = .ok c' →
      parts? token = parts? token' → trimChars token.toList = trimChars token'.toList)
    ∧ (Flawed (trimChars token.toList) → ∃ fault, decode key token = .error fault ∧
      ∀ (s : Service) (address : String), s.keys.publicKey = key →
        s.decryptToken address token = .error (.invalidToken fault) ∧
        s.clientOfToken address token = (.error (.invalidToken fault), s)) := by
  refine ⟨?_, ?_, ?_⟩
  · intro c
    constructor
    · intro h
      obtain ⟨payload, hopen, hclaims⟩ := decode_eq_ok_iff.mp h
      obtain ⟨signature, hspells⟩ := openToken_eq_ok_iff.mp hopen
      refine ⟨payload, signature, hspells, hclaims, ?_⟩
      intro payload' signature' htext
      exact spelling_injective (htext.symm.trans hspells.text_eq)
    · rintro ⟨payload, signature, hspells, hclaims, _⟩
      exact decode_eq_ok_iff.mpr ⟨payload, hspells.openToken, hclaims⟩
  · intro token' c c' h h' hparts
    obtain ⟨payload, hopen, _⟩ := decode_eq_ok_iff.mp h
    obtain ⟨signature, hspells⟩ := openToken_eq_ok_iff.mp hopen
    rw [parts?_eq_some_iff.mpr hspells.text_eq] at hparts
    rw [hspells.text_eq, parts?_eq_some_iff.mp hparts.symm]
  · intro hflawed
    cases hdecode : decode key token with
    | ok c =>
      obtain ⟨payload, hopen, _⟩ := decode_eq_ok_iff.mp hdecode
      exact absurd hopen (openToken_of_flawed hflawed payload)
    | error fault =>
      refine ⟨fault, rfl, ?_⟩
      rintro s address rfl
      have hrefused := decryptToken_of_error hdecode address
      refine ⟨hrefused, ?_⟩
      rw [Service.clientOfToken, hrefused]

end Backplane.Access.Bearer
