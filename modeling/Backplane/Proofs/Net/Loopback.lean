import Backplane.Access.Error
import Backplane.Proofs.Net.Address

/-!
# `Backplane.Proofs.Net.Loopback`: who may use a token from anywhere

Claims may be used from the address that they were issued to, and from the own
machine. So whatever text counts as the own machine opens every token.
`NamesOwnMachine` says which texts should: the name `localhost`, the addresses
`127.x.y.z`, and seven zero groups and a one. The main statements:

* `isLoopback_iff`: these texts count, with blanks around them, and no others.
* `eq_of_isLoopback`: among the texts of eight groups only those of one address
  count. So an address of the other family is not exempt in disguise.
* `plain_of_isLoopback`: nothing stands around such an address, no bracket, zone
  or prefix length.
* `own_machine_exempt`: all of this, and what it means for the claims of a token.
-/

set_option autoImplicit false

namespace Backplane.Net

open Address (IsOctet IsQuad IsGroup IsGroups IsRun Values isHexDigit)
open Text (isBlank trimChars)

/-- A text is a word in any ASCII case. -/
def IsCased (word text : List Char) : Prop :=
  List.Forall₂ (fun l c => c = l ∨ c = l.toUpper) word text

/-- The texts that name the own machine. -/
inductive NamesOwnMachine : List Char → Prop where
  | name {text : List Char} (h : IsCased "localhost".toList text) : NamesOwnMachine text
  | quad {text : List Char} {x y z : Nat} (h : IsQuad text [127, x, y, z]) : NamesOwnMachine text
  | groups {text : List Char} (h : IsGroups text [0, 0, 0, 0, 0, 0, 0, 1]) : NamesOwnMachine text

/-- A text that names the own machine, with blanks around it or not. -/
def IsOwnMachine (text : String) : Prop :=
  ∃ pre body post, text.toList = pre ++ body ++ post ∧ NamesOwnMachine body ∧
    (∀ c ∈ pre, isBlank c = true) ∧ ∀ c ∈ post, isBlank c = true

/-! ### Words in any case -/

theorem toNat_toLower (c : Char) :
    c.toLower.toNat = if 65 ≤ c.toNat ∧ c.toNat ≤ 90 then c.toNat + 32 else c.toNat := by
  have hrange : (c.val ≥ 'A'.val ∧ c.val ≤ 'Z'.val) ↔ 65 ≤ c.toNat ∧ c.toNat ≤ 90 := by
    simp [UInt32.le_iff_toNat_le]
  unfold Char.toLower
  split
  · rename_i h
    have hhi := (hrange.mp h).2
    rw [if_pos (hrange.mp h)]
    show (c.val + 32).toNat = _
    simp [UInt32.toNat_add]
    omega
  · rename_i h
    rw [if_neg fun h' => h (hrange.mpr h')]

theorem toNat_toUpper (c : Char) :
    c.toUpper.toNat = if 97 ≤ c.toNat ∧ c.toNat ≤ 122 then c.toNat - 32 else c.toNat := by
  have hrange : ('a'.val ≤ c.val ∧ c.val ≤ 'z'.val) ↔ 97 ≤ c.toNat ∧ c.toNat ≤ 122 := by
    simp [UInt32.le_iff_toNat_le]
  unfold Char.toUpper
  split
  · rename_i h
    obtain ⟨hlo, hhi⟩ := hrange.mp h
    rw [if_pos ⟨hlo, hhi⟩]
    show (c.val + ('A'.val - 'a'.val)).toNat = _
    simp [UInt32.toNat_add]
    omega
  · rename_i h
    rw [if_neg fun h' => h (hrange.mpr h')]

/-- Two characters become one lower-case letter. -/
theorem toLower_eq_iff {c l : Char} (h : l.isLower = true) :
    c.toLower = l ↔ c = l ∨ c = l.toUpper := by
  have hl : 97 ≤ l.toNat ∧ l.toNat ≤ 122 := by
    have hrange : (decide (l.val ≥ 'a'.val) && decide (l.val ≤ 'z'.val)) = true := h
    simpa [UInt32.le_iff_toNat_le] using hrange
  -- The letter cases are 32 apart, and `c` is compared by its number.
  rw [← Char.toNat_inj, ← Char.toNat_inj, ← Char.toNat_inj, toNat_toLower, toNat_toUpper,
    if_pos hl]
  split <;> omega

theorem map_toLower_eq_iff {word text : List Char} (h : ∀ l ∈ word, l.isLower = true) :
    text.map Char.toLower = word ↔ IsCased word text := by
  unfold IsCased
  induction word generalizing text with
  | nil => simp
  | cons l word ih =>
    cases text with
    | nil => simp
    | cons c text =>
      obtain ⟨hl, hword⟩ := List.forall_mem_cons.mp h
      simp [toLower_eq_iff hl, ih hword]

theorem IsCased.mem {word text : List Char} (h : IsCased word text) {c : Char} (hc : c ∈ text) :
    ∃ l ∈ word, c = l ∨ c = l.toUpper := by
  induction h with
  | nil => simp at hc
  | @cons l c' word text hl _ ih =>
    rcases List.mem_cons.mp hc with rfl | hc
    · exact ⟨l, by simp, hl⟩
    · obtain ⟨l', hmem, hl'⟩ := ih hc
      exact ⟨l', by simp [hmem], hl'⟩

/-! ### The characters of an address -/

/-- The characters that addresses are written with. -/
def IsAddressChar (c : Char) : Prop := isHexDigit c = true ∨ c = '.' ∨ c = ':'

theorem isAddressChar_of_isOctet {text : List Char} {n : Nat} (h : IsOctet text n) :
    ∀ c ∈ text, IsAddressChar c := by
  intro c hc
  rw [h.text_eq] at hc
  have hrange : 48 ≤ c.toNat ∧ c.toNat ≤ 57 :=
    Char.isDigit_iff_toNat.mp (Text.isDigit_of_mem_digits n c hc)
  exact .inl (by simp [isHexDigit, Text.Hex.digit?, hrange])

theorem isAddressChar_of_isQuad {text : List Char} {os : List Nat} (h : IsQuad text os) :
    ∀ c ∈ text, IsAddressChar c := by
  obtain ⟨ha, hb, hc, hd⟩ := h
  have hdot : IsAddressChar '.' := .inr (.inl rfl)
  simp only [List.mem_append, List.mem_cons]
  rintro x (hx | rfl | hx | rfl | hx | rfl | hx)
  · exact isAddressChar_of_isOctet ha x hx
  · exact hdot
  · exact isAddressChar_of_isOctet hb x hx
  · exact hdot
  · exact isAddressChar_of_isOctet hc x hx
  · exact hdot
  · exact isAddressChar_of_isOctet hd x hx

theorem isAddressChar_of_isGroup {text : List Char} {g : Nat} (h : IsGroup text g) :
    ∀ c ∈ text, IsAddressChar c := by
  obtain ⟨vs, hvs, _⟩ := h.value
  exact fun c hc => .inl (Address.isHexDigit_of_values hvs c hc)

theorem isAddressChar_of_isRun {quad : Bool} {text : List Char} {gs : List Nat}
    (h : IsRun quad text gs) : ∀ c ∈ text, IsAddressChar c := by
  induction h with
  | nil => simp
  | group h => exact isAddressChar_of_isGroup h
  | quad h => exact isAddressChar_of_isQuad h
  | cons h _ _ ih =>
    simp only [List.mem_append, List.mem_cons]
    rintro c (hc | rfl | hc)
    · exact isAddressChar_of_isGroup h c hc
    · exact .inr (.inr rfl)
    · exact ih c hc

theorem isAddressChar_of_isGroups {text : List Char} {gs : List Nat} (h : IsGroups text gs) :
    ∀ c ∈ text, IsAddressChar c := by
  cases h with
  | full h _ => exact isAddressChar_of_isRun h
  | short hbefore hafter _ =>
    simp only [List.mem_append, List.mem_cons]
    rintro c (hc | rfl | rfl | hc)
    · exact isAddressChar_of_isRun hbefore c hc
    · exact .inr (.inr rfl)
    · exact .inr (.inr rfl)
    · exact isAddressChar_of_isRun hafter c hc

theorem IsAddressChar.not_blank {c : Char} (h : IsAddressChar c) : isBlank c = false := by
  rcases h with hhex | rfl | rfl
  · have hrange : (48 ≤ c.toNat ∧ c.toNat ≤ 57) ∨ (97 ≤ c.toNat ∧ c.toNat ≤ 102) ∨
        (65 ≤ c.toNat ∧ c.toNat ≤ 70) := by
      unfold isHexDigit Text.Hex.digit? at hhex
      simp only at hhex
      split at hhex
      · exact .inl ‹_›
      · split at hhex
        · exact .inr (.inl ‹_›)
        · split at hhex
          · exact .inr (.inr ‹_›)
          · cases hhex
    simp only [isBlank, Bool.or_eq_false_iff, Bool.and_eq_false_iff, decide_eq_false_iff_not,
      beq_eq_false_iff_ne]
    omega
  · decide
  · decide

/-- A text of the own machine is the name, or has the characters of addresses. -/
theorem NamesOwnMachine.chars {text : List Char} (h : NamesOwnMachine text) :
    IsCased "localhost".toList text ∨ ∀ c ∈ text, IsAddressChar c := by
  cases h with
  | name h => exact .inl h
  | quad h => exact .inr (isAddressChar_of_isQuad h)
  | groups h => exact .inr (isAddressChar_of_isGroups h)

theorem NamesOwnMachine.not_blank {text : List Char} (h : NamesOwnMachine text) :
    ∀ c ∈ text, isBlank c = false := by
  intro c hc
  rcases h.chars with hname | hchars
  · obtain ⟨l, hl, hcase⟩ := hname.mem hc
    have hall : ∀ l ∈ "localhost".toList, isBlank l = false ∧ isBlank l.toUpper = false := by
      simp [isBlank]
    rcases hcase with rfl | rfl
    · exact (hall c hl).1
    · exact (hall l hl).2
  · exact (hchars c hc).not_blank

/-! ### The exempt texts -/

/-- The blanks around a text, and what is left without them. -/
theorem exists_blanks (cs : List Char) : ∃ pre post, cs = pre ++ trimChars cs ++ post ∧
    (∀ c ∈ pre, isBlank c = true) ∧ ∀ c ∈ post, isBlank c = true := by
  -- The blanks at the end are those at the front of the reversed text.
  let inner := Text.trimStart cs
  have hback : (inner.reverse.takeWhile isBlank ++ (trimChars cs).reverse).reverse = inner := by
    rw [trimChars, Text.trimEnd_eq, Text.trimStart_append, List.reverse_reverse]
  refine ⟨cs.takeWhile isBlank, (inner.reverse.takeWhile isBlank).reverse, ?_, ?_, ?_⟩
  · rw [List.reverse_append, List.reverse_reverse] at hback
    rw [List.append_assoc, hback]
    exact (Text.trimStart_append cs).symm
  · exact List.all_eq_true.mp List.all_takeWhile
  · intro c hc
    exact List.all_eq_true.mp List.all_takeWhile c (List.mem_reverse.mp hc)

theorem isOwnMachine_iff {text : String} :
    IsOwnMachine text ↔ NamesOwnMachine (trimChars text.toList) := by
  constructor
  · rintro ⟨pre, body, post, htext, hbody, hpre, hpost⟩
    have htrim : trimChars (pre ++ body ++ post) = body :=
      Text.trimChars_eq hpre (fun c hc => hbody.not_blank c (List.mem_of_mem_head? hc))
        (fun c hc => hbody.not_blank c (List.mem_of_mem_getLast? hc)) hpost
    rwa [htext, htrim]
  · intro h
    obtain ⟨pre, post, htext, hpre, hpost⟩ := exists_blanks text.toList
    exact ⟨pre, _, post, htext, h, hpre, hpost⟩

/-- The texts that count as the own machine. -/
theorem isLoopback_iff (text : String) : isLoopback text = true ↔ IsOwnMachine text := by
  rw [isOwnMachine_iff]
  generalize hbody : trimChars text.toList = body
  have hname : (body.map Char.toLower == "localhost".toList) = true
      ↔ IsCased "localhost".toList body := by
    rw [beq_iff_eq, map_toLower_eq_iff (by simp)]
  have haddress : (Address.parse? body).any Address.isLoopback = true ↔
      (∃ x y z, IsQuad body [127, x, y, z]) ∨ IsGroups body [0, 0, 0, 0, 0, 0, 0, 1] := by
    constructor
    · intro h
      cases hparse : Address.parse? body with
      | none => simp [hparse] at h
      | some address =>
        rw [hparse, Option.any_some] at h
        cases address with
        | v4 os =>
          have hquad := Address.parse?_v4_iff.mp hparse
          obtain ⟨ha, hb, hc, hd⟩ := hquad
          have hfirst := eq_of_beq h
          rw [List.head?_cons, Option.some_inj] at hfirst
          subst hfirst
          exact .inl ⟨_, _, _, .mk ha hb hc hd⟩
        | v6 gs => exact .inr (eq_of_beq h ▸ Address.parse?_v6_iff.mp hparse)
    · rintro (⟨x, y, z, h⟩ | h)
      · rw [Address.parse?_v4_iff.mpr h]
        rfl
      · rw [Address.parse?_v6_iff.mpr h]
        rfl
  simp only [isLoopback, hbody, Bool.or_eq_true, hname, haddress]
  constructor
  · rintro (h | ⟨x, y, z, h⟩ | h)
    · exact .name h
    · exact .quad h
    · exact .groups h
  · rintro (h | h | h)
    · exact .inl h
    · exact .inr (.inl ⟨_, _, _, h⟩)
    · exact .inr (.inr h)

/-- Of the texts of eight groups, only those of one address count. -/
theorem eq_of_isLoopback {text : String} {gs : List Nat}
    (h : IsGroups (trimChars text.toList) gs) :
    isLoopback text = true ↔ gs = [0, 0, 0, 0, 0, 0, 0, 1] := by
  rw [isLoopback_iff, isOwnMachine_iff]
  have hparse := Address.parse?_v6_iff.mpr h
  constructor
  · rintro (hname | hquad | hgroups)
    · -- The first letter of the name is no digit.
      have hchars := isAddressChar_of_isGroups h
      generalize trimChars text.toList = body at hname hchars
      have hword : IsCased ('l' :: "ocalhost".toList) body := hname
      cases hword with
      | cons hfirst _ =>
        have hno : ∀ c, c = 'l' ∨ c = 'l'.toUpper → ¬ IsAddressChar c := by
          unfold IsAddressChar
          rintro c (rfl | rfl) <;> decide
        exact absurd (hchars _ (by simp)) (hno _ hfirst)
    · rw [Address.parse?_v4_iff.mpr hquad] at hparse
      cases hparse
    · rw [Address.parse?_v6_iff.mpr hgroups] at hparse
      cases hparse
      rfl
  · rintro rfl
    exact .groups h

/-- A text that counts is the name, or nothing stands around its address. -/
theorem plain_of_isLoopback {text : String} (h : isLoopback text = true) :
    IsCased "localhost".toList (trimChars text.toList) ∨
      ∀ c ∈ trimChars text.toList, IsAddressChar c :=
  (isOwnMachine_iff.mp ((isLoopback_iff text).mp h)).chars

end Backplane.Net

namespace Backplane.Access.Bearer.Claims

open Net (isLoopback IsOwnMachine IsAddressChar IsCased)
open Net.Address (IsGroups)

/-- Claims may be used from an address if and only if they were issued to it, or
it is a text of the own machine. -/
theorem checkAddress_eq_ok_iff (c : Claims) (address : String) :
    c.checkAddress address = .ok () ↔ address = c.address ∨ IsOwnMachine address := by
  rw [← Net.isLoopback_iff, checkAddress, admits]
  by_cases hloop : isLoopback address = true
  · simp [hloop]
  · by_cases haddress : c.address = address
    · simp [haddress]
    · simp [hloop, haddress, Ne.symm haddress]

/-- The texts that count as the own machine are just those that name it: the
word `localhost`, the addresses `127.x.y.z`, and eight groups of which the last
is one and the others are zero, however they are written, and with blanks around
them. A text of eight other groups does not count, even if these stand for an
address of four octets, and nor does a text with any other character in it. And
claims may be used from an address if and only if they were issued to it or it
is one of these texts. -/
theorem own_machine_exempt :
    (∀ text : String, isLoopback text = true ↔ IsOwnMachine text) ∧
    (∀ (text : String) (gs : List Nat), IsGroups (Text.trimChars text.toList) gs →
      (isLoopback text = true ↔ gs = [0, 0, 0, 0, 0, 0, 0, 1])) ∧
    (∀ text : String, isLoopback text = true →
      IsCased "localhost".toList (Text.trimChars text.toList) ∨
        ∀ c ∈ Text.trimChars text.toList, IsAddressChar c) ∧
    ∀ (c : Claims) (address : String),
      c.checkAddress address = .ok () ↔ address = c.address ∨ IsOwnMachine address :=
  ⟨Net.isLoopback_iff, fun _ _ => Net.eq_of_isLoopback, fun _ => Net.plain_of_isLoopback,
    checkAddress_eq_ok_iff⟩

/-- An address of four octets in the disguise of eight groups is not exempt,
and it is good only for what was issued to it. The loopback address itself is
exempt, here with a dotted quad at its end and among blanks. -/
theorem own_machine_exempt_mapped :
    IsGroups (Text.trimChars "::ffff:127.0.0.1".toList) [0, 0, 0, 0, 0, 65535, 32512, 1] ∧
      isLoopback "::ffff:127.0.0.1" = false ∧ isLoopback "\t0:0::0.0.0.1 " = true ∧
      ∀ c : Claims, c.checkAddress "::ffff:127.0.0.1" = .ok () → "::ffff:127.0.0.1" = c.address := by
  obtain ⟨hexempt, hgroups, -, hclaims⟩ := own_machine_exempt
  have hmapped : IsGroups (Text.trimChars "::ffff:127.0.0.1".toList)
      [0, 0, 0, 0, 0, 65535, 32512, 1] := Net.Address.parse?_v6_iff.mp (by decide)
  have hone : IsGroups (Text.trimChars "\t0:0::0.0.0.1 ".toList) [0, 0, 0, 0, 0, 0, 0, 1] :=
    Net.Address.parse?_v6_iff.mp (by decide)
  have hrefused : isLoopback "::ffff:127.0.0.1" = false :=
    Bool.eq_false_iff.mpr fun h => absurd ((hgroups _ _ hmapped).mp h) (by decide)
  refine ⟨hmapped, hrefused, (hgroups _ _ hone).mpr rfl, fun c hc => ?_⟩
  rcases (hclaims c _).mp hc with haddress | hown
  · exact haddress
  · rw [(hexempt _).mpr hown] at hrefused
    cases hrefused

end Backplane.Access.Bearer.Claims
