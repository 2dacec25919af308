import Backplane.Text.Blank
import Backplane.Text.Numeral
import Mathlib.Data.List.Induction
import Mathlib.Data.Nat.Digits.Defs

/-!
# `Backplane.Proofs.Text.Numeral`: numerals that were written

An integer is written with decimal digits, after a minus if it is negative,
and what is written is read as the integer. The main statements:

* `digitsFrom?_eq`: what a run of digits is read as.
* `toDigits_ofDigitChars`: digits that are read are those of the number, if they
  have no leading zero.
* `unsigned?_toDigits`, `signed?_toString`: a number of 64 bits is read back.
* `signed?_eq_some_iff`: which texts are read as an integer of 64 bits.
* `mem_toString_int`, `toString_int_ne_nil`: what an integer is written with.
-/

set_option autoImplicit false

namespace Backplane.Text

/-- The value of a digit. -/
theorem digit?_of_isDigit {c : Char} (h : c.isDigit = true) :
    digit? c = some (c.toNat - '0'.toNat) := by
  have hrange : '0' ≤ c ∧ c ≤ '9' := Char.isDigit_iff_toNat.mp h
  rw [digit?, if_pos hrange]

/-- A run of digits is read from left to right. -/
theorem digitsFrom?_eq {cs : List Char} (h : ∀ c ∈ cs, c.isDigit = true) (acc : Nat) :
    digitsFrom? acc cs = some (Nat.ofDigitChars 10 cs acc) := by
  induction cs generalizing acc with
  | nil => rfl
  | cons c rest ih =>
    obtain ⟨hc, hrest⟩ := List.forall_mem_cons.mp h
    rw [digitsFrom?, digit?_of_isDigit hc, Option.bind_some, ih hrest]
    rfl

/-- A number is written with digits. -/
theorem isDigit_of_mem_digits (n : Nat) : ∀ c ∈ Nat.toDigits 10 n, c.isDigit = true :=
  fun _ hc => Nat.isDigit_of_mem_toDigits (by decide) (by decide) hc

/-- The digits of a number are read as the number. -/
theorem natOfDigits?_toDigits (n : Nat) : natOfDigits? (Nat.toDigits 10 n) = some n := by
  have hread := digitsFrom?_eq (isDigit_of_mem_digits n) 0
  rw [Nat.ofDigitChars_ten_toDigits] at hread
  cases hdigits : Nat.toDigits 10 n with
  | nil => exact absurd hdigits Nat.toDigits_ne_nil
  | cons c rest =>
    show digitsFrom? 0 (c :: rest) = some n
    rw [← hdigits, hread]

/-- The digits of a number do not begin with a zero, unless it is zero. -/
theorem head?_toDigits {n : Nat} (h : 0 < n) : (Nat.toDigits 10 n).head? ≠ some '0' := by
  induction n using Nat.strongRecOn with
  | ind n ih =>
    by_cases hn : n < 10
    · rw [Nat.toDigits_of_lt_base hn]
      have hall : ∀ m < 10, 0 < m → [m.digitChar].head? ≠ some '0' := by decide
      exact hall n hn h
    · rw [Nat.toDigits_of_base_le (by decide) (Nat.le_of_not_lt hn), List.head?_append]
      have hdiv : 0 < n / 10 := Nat.div_pos (Nat.le_of_not_lt hn) (by decide)
      have hne := ih (n / 10) (Nat.div_lt_self h (by decide)) hdiv
      cases hhead : (Nat.toDigits 10 (n / 10)).head? with
      | none => exact absurd (List.head?_eq_none_iff.mp hhead) Nat.toDigits_ne_nil
      | some c =>
        rw [hhead] at hne
        exact hne

/-- A digit is the digit of its value. -/
theorem digitChar_of_isDigit {c : Char} (h : c.isDigit = true) :
    c.toNat - '0'.toNat < 10 ∧ (c.toNat - '0'.toNat).digitChar = c := by
  obtain ⟨hlo, hhi⟩ : 48 ≤ c.toNat ∧ c.toNat ≤ 57 := Char.isDigit_iff_toNat.mp h
  have hall : ∀ n < 58, 48 ≤ n → n - 48 < 10 ∧ (n - 48).digitChar = Char.ofNat n := by decide
  simpa using hall c.toNat (by omega) hlo

/-- Digits without a leading zero are the digits of the number that they are
read as. -/
theorem toDigits_ofDigitChars {cs : List Char} (hne : cs ≠ [])
    (hdigits : ∀ c ∈ cs, c.isDigit = true) (hzero : cs.head? = some '0' → cs.length = 1) :
    Nat.toDigits 10 (Nat.ofDigitChars 10 cs 0) = cs := by
  induction cs using List.reverseRecOn with
  | nil => exact absurd rfl hne
  | append_singleton front c ih =>
    obtain ⟨hlt, hchar⟩ := digitChar_of_isDigit (hdigits c (by simp))
    have hlast : Nat.toDigits 10 (c.toNat - '0'.toNat) = [c] := by
      rw [Nat.toDigits_of_lt_base hlt, hchar]
    rw [Nat.ofDigitChars_append]
    by_cases hfront : front = []
    · simpa [hfront, Nat.ofDigitChars_cons] using hlast
    · -- A number in front that is zero would be a leading zero.
      have hzero' : front.head? ≠ some '0' := by
        intro hhead
        have hlength := hzero (by simp [List.head?_append, hhead])
        simp [hfront] at hlength
      have hvalue := ih hfront (fun d hd => hdigits d (by simp [hd]))
        (fun hhead => absurd hhead hzero')
      have hpos : 0 < Nat.ofDigitChars 10 front 0 := by
        refine Nat.pos_of_ne_zero fun h => hzero' ?_
        rw [← hvalue, h]
        rfl
      have hsplit := Nat.toDigits_append_toDigits (by decide : 1 < 10) hpos hlt
      rw [hvalue, hlast] at hsplit
      simpa [Nat.ofDigitChars_cons] using hsplit.symm

/-- A digit is no blank. -/
theorem isBlank_of_isDigit {c : Char} (h : c.isDigit = true) : isBlank c = false := by
  obtain ⟨hlo, hhi⟩ : 48 ≤ c.toNat ∧ c.toNat ≤ 57 := Char.isDigit_iff_toNat.mp h
  simp only [isBlank, Bool.or_eq_false_iff, Bool.and_eq_false_iff, decide_eq_false_iff_not,
    beq_eq_false_iff_ne]
  omega

/-- A number of 64 bits is read back. -/
theorem unsigned?_toDigits {n : Nat} (h : n ≤ maxUnsigned) :
    unsigned? (Nat.toDigits 10 n) = some n := by
  have hvalue : unsigned? (Nat.toDigits 10 n)
      = (natOfDigits? (Nat.toDigits 10 n)).filter (· ≤ maxUnsigned) := by
    unfold unsigned?
    split
    · -- No digit is a sign.
      rename_i hplus
      have hdigit := isDigit_of_mem_digits n '+' (by simp [hplus])
      exact absurd hdigit (by decide)
    · rfl
  simp [hvalue, natOfDigits?_toDigits, h]

/-! ### Texts that are numerals -/

/-- A run of decimal digits, and the number that it writes. -/
structure IsDigits (cs : List Char) (n : Nat) : Prop where
  ne_nil : cs ≠ []
  digits : ∀ c ∈ cs, c.isDigit = true
  value_eq : n = Nat.ofDigitChars 10 cs 0

/-- Digits with one sign in front, or none, and the integer that they write. -/
inductive IsInteger : List Char → Int → Prop where
  | plain {ds : List Char} {n : Nat} (h : IsDigits ds n) : IsInteger ds n
  | plus {ds : List Char} {n : Nat} (h : IsDigits ds n) : IsInteger ('+' :: ds) n
  | minus {ds : List Char} {n : Nat} (h : IsDigits ds n) : IsInteger ('-' :: ds) (-n)

/-- Nothing but digits is read as digits. -/
theorem isDigit_of_digitsFrom? {cs : List Char} {acc n : Nat} (h : digitsFrom? acc cs = some n) :
    ∀ c ∈ cs, c.isDigit = true := by
  induction cs generalizing acc with
  | nil => simp
  | cons c rest ih =>
    obtain ⟨d, hd, hrest⟩ := Option.bind_eq_some_iff.mp h
    have hc : c.isDigit = true := by
      unfold digit? at hd
      split at hd
      · exact Char.isDigit_iff_toNat.mpr ‹_›
      · cases hd
    exact List.forall_mem_cons.mpr ⟨hc, ih hrest⟩

theorem natOfDigits?_eq_some_iff {cs : List Char} {n : Nat} :
    natOfDigits? cs = some n ↔ IsDigits cs n := by
  cases cs with
  | nil =>
    constructor
    · intro h
      cases h
    · intro h
      exact absurd rfl h.ne_nil
  | cons c rest =>
    show digitsFrom? 0 (c :: rest) = some n ↔ _
    constructor
    · intro h
      have hdigits := isDigit_of_digitsFrom? h
      rw [digitsFrom?_eq hdigits, Option.some_inj] at h
      exact ⟨by simp, hdigits, h.symm⟩
    · rintro ⟨_, hdigits, rfl⟩
      exact digitsFrom?_eq hdigits 0

/-- The integers of 64 bits. -/
theorem fitsSigned_iff {n : Int} : fitsSigned n = true ↔ -2 ^ 63 ≤ n ∧ n < 2 ^ 63 := by
  unfold fitsSigned
  simp only [Bool.and_eq_true, decide_eq_true_eq]
  omega

/-- A text is read as a signed number of 64 bits if and only if it writes an
integer that fits. -/
theorem signed?_eq_some_iff {cs : List Char} {n : Int} :
    signed? cs = some n ↔ IsInteger cs n ∧ fitsSigned n = true := by
  have hplain : ∀ ds : List Char, (natOfDigits? ds).map Int.ofNat = some n
      ↔ ∃ m, IsDigits ds m ∧ n = m := by
    intro ds
    simp [natOfDigits?_eq_some_iff, @eq_comm _ n]
  have hminus : ∀ ds : List Char, (natOfDigits? ds).map (fun m => -Int.ofNat m) = some n
      ↔ ∃ m, IsDigits ds m ∧ n = -(m : Int) := by
    intro ds
    simp [natOfDigits?_eq_some_iff, @eq_comm _ n]
  -- A sign is no digit, so the three forms of numerals exclude each other.
  have hsign : ∀ c rest m, IsDigits (c :: rest) m → c ≠ '+' ∧ c ≠ '-' := by
    intro c rest m h
    have hc := h.digits c (by simp)
    constructor <;>
    · rintro rfl
      exact absurd hc (by decide)
  unfold signed?
  rw [Option.filter_eq_some_iff]
  refine and_congr_left fun _ => ?_
  split
  · rename_i rest
    rw [hplain]
    constructor
    · rintro ⟨m, hm, rfl⟩
      exact .plus hm
    · rintro (h | h)
      · exact absurd rfl (hsign _ _ _ h).1
      · exact ⟨_, h, rfl⟩
  · rename_i rest
    rw [hminus]
    constructor
    · rintro ⟨m, hm, rfl⟩
      exact .minus hm
    · intro h
      cases h with
      | plain h => exact absurd rfl (hsign _ _ _ h).2
      | minus h => exact ⟨_, h, rfl⟩
  · rename_i hplus hminus'
    rw [hplain]
    constructor
    · rintro ⟨m, hm, rfl⟩
      exact .plain hm
    · intro h
      cases h with
      | plain h => exact ⟨_, h, rfl⟩
      | plus h => exact absurd rfl (hplus _)
      | minus h => exact absurd rfl (hminus' _)

/-- Digits alone have no sign. -/
theorem signed?_of_digits {cs : List Char} (h : ∀ c ∈ cs, c.isDigit = true) :
    signed? cs = ((natOfDigits? cs).map Int.ofNat).filter fitsSigned := by
  unfold signed?
  split
  · exact absurd (h '+' List.mem_cons_self) (by decide)
  · exact absurd (h '-' List.mem_cons_self) (by decide)
  · rfl

/-- How an integer is written. -/
theorem toList_toString_int (n : Int) : (toString n).toList
    = if 0 ≤ n then Nat.toDigits 10 n.natAbs else '-' :: Nat.toDigits 10 n.natAbs := by
  rw [Int.toString_eq_repr, Int.repr_eq_if]
  split
  · rw [Nat.toList_repr, show n.toNat = n.natAbs by omega]
  · rw [String.toList_append, Nat.toList_repr, show (-n).toNat = n.natAbs by omega]
    rfl

/-- An integer of 64 bits is read back. -/
theorem signed?_toString {n : Int} (h : fitsSigned n = true) :
    signed? (toString n).toList = some n := by
  rw [toList_toString_int]
  split
  · have hvalue : Int.ofNat n.natAbs = n := Int.natAbs_of_nonneg ‹_›
    rw [signed?_of_digits (isDigit_of_mem_digits _), natOfDigits?_toDigits, Option.map_some,
      hvalue, Option.filter_some, if_pos h]
  · have hvalue : -Int.ofNat n.natAbs = n := by
      rw [Int.ofNat_eq_natCast]
      omega
    show ((natOfDigits? _).map fun m => -Int.ofNat m).filter fitsSigned = _
    rw [natOfDigits?_toDigits, Option.map_some, hvalue, Option.filter_some, if_pos h]

/-- An integer is written with a minus and digits only. -/
theorem mem_toString_int {n : Int} {c : Char} (h : c ∈ (toString n).toList) :
    c = '-' ∨ c.isDigit = true := by
  rw [toList_toString_int] at h
  split at h
  · exact .inr (isDigit_of_mem_digits _ c h)
  · exact (List.mem_cons.mp h).imp_right (isDigit_of_mem_digits _ c)

/-- An integer is written with something. -/
theorem toString_int_ne_nil (n : Int) : (toString n).toList ≠ [] := by
  rw [toList_toString_int]
  split
  · exact Nat.toDigits_ne_nil
  · exact List.cons_ne_nil _ _

end Backplane.Text
