import Backplane.Proofs.Json.Grammar
import Backplane.Proofs.Text.Split
import Backplane.Proofs.Text.Utf8

/-!
# `Backplane.Proofs.Json.Token`: scanning a text of the grammar

The scanner reads a text from the front, so each statement is about a
token with any rest behind it: the scanner takes the token and goes on with
the rest. Only a number has to be delimited, because it ends where no further
byte can belong to it. The main statements:

* `Scans`: bytes of a string literal that are read as some pieces, whatever
  stands behind them; `exists_scans_of_isBody` gives the pieces of a literal, and
  that they spell what the literal spells.
* `number?_eq`: a number is read as that number.
* `Reads`: bytes that are read as some tokens in front of any delimited
  rest, with `Reads.append_mark` to put texts together.
* `reads_string`, `reads_number`, `Reads.within_blanks`: what each kind of token
  is read as, and that blanks around it do not count.
-/

set_option autoImplicit false

namespace Backplane.Json.Token

open Text (utf8Bytes utf8Bytes_of_lt utf8EncodeChar_of_lt le_of_mem_utf8EncodeChar toNat_byte
  eq_of_byte_eq map_ofNat_utf8Bytes fromUTF8?_utf8Bytes Ends takeWhile_append dropWhile_append)

/-! ### Strings -/

/-- The bytes `w` of a string literal are read as some pieces, whatever
stands behind them. -/
def Scans (w : List UInt8) (pieces : List Piece) : Prop :=
  ∀ rest, readPieces (w ++ rest) = (readPieces rest).map fun p => (pieces ++ p.1, p.2)

theorem scans_nil : Scans [] [] := fun _ => by simp

theorem Scans.append {w w' : List UInt8} {pieces pieces' : List Piece} (h : Scans w pieces)
    (h' : Scans w' pieces') : Scans (w ++ w') (pieces ++ pieces') := by
  intro rest
  rw [List.append_assoc, h, h', Option.map_map]
  simp only [Function.comp_def, List.append_assoc]

/-- Bytes that need no escape stand for themselves. -/
theorem scans_bytes {w : List UInt8} (h : ∀ b ∈ w, ¬ b < 0x20 ∧ b ≠ 0x22 ∧ b ≠ 0x5C) :
    Scans w (w.map .byte) := by
  induction w with
  | nil => exact scans_nil
  | cons b w ih =>
    obtain ⟨hctl, hq, hbs⟩ := h b List.mem_cons_self
    have hbyte : Scans [b] [.byte b] := by
      intro rest
      rw [List.singleton_append, readPieces.eq_5 b rest hq (fun _ _ _ _ _ h _ => hbs h)
        (fun _ _ h _ => hbs h), if_neg (by simp only [hctl, hbs, or_self, not_false_eq_true])]
      cases readPieces rest <;> rfl
    exact hbyte.append (ih fun c hc => h c (List.mem_cons_of_mem b hc))

/-- A character without an escape is written as it is. -/
theorem scans_plain {c : Char} (h : IsPlain c) :
    Scans (String.utf8EncodeChar c) ((String.utf8EncodeChar c).map .byte) := by
  refine scans_bytes fun b hb => ?_
  by_cases hascii : c.toNat < 128
  · rw [utf8EncodeChar_of_lt hascii, List.mem_singleton] at hb
    subst hb
    have hne : ∀ d : Char, d.toNat < 128 → c ≠ d → UInt8.ofNat c.toNat ≠ UInt8.ofNat d.toNat :=
      fun d hd hcd he => hcd (eq_of_byte_eq hascii hd he)
    refine ⟨fun hlt => ?_, hne '"' (by decide) h.ne_quote, hne '\\' (by decide) h.ne_backslash⟩
    have hlt' := UInt8.lt_iff_toNat_lt.mp hlt
    rw [toNat_byte hascii] at hlt'
    exact absurd hlt' (Nat.not_lt.mpr h.le)
  · have h128 := le_of_mem_utf8EncodeChar (Nat.le_of_not_lt hascii) b hb
    refine ⟨fun hlt => ?_, ?_, ?_⟩
    · have hlt' : b.toNat < 32 := UInt8.lt_iff_toNat_lt.mp hlt
      omega
    · rintro rfl
      exact absurd h128 (by decide)
    · rintro rfl
      exact absurd h128 (by decide)

/-- An escape of one letter stands for its character, which is one byte. -/
theorem scans_short {e c : Char} (h : (e, c) ∈ shortEscapes) :
    Scans (utf8Bytes ['\\', e]) ((String.utf8EncodeChar c).map .byte) := by
  have htable : ∀ p ∈ shortEscapes, p.1.toNat < 128 ∧ p.2.toNat < 128 ∧
      UInt8.ofNat p.1.toNat ≠ 0x75 ∧
      simpleEscape? (UInt8.ofNat p.1.toNat) = some (UInt8.ofNat p.2.toNat) := by decide
  obtain ⟨he, hc, hu, hvalue⟩ := htable _ h
  intro rest
  have hletters : ∀ d ∈ ['\\', e], d.toNat < 128 := by
    simp only [List.mem_cons, List.not_mem_nil, or_false, forall_eq_or_imp, forall_eq]
    exact ⟨by decide, he⟩
  rw [utf8Bytes_of_lt hletters, utf8EncodeChar_of_lt hc]
  show readPieces (0x5C :: UInt8.ofNat e.toNat :: rest) = _
  rw [readPieces.eq_4 _ rest (fun _ _ _ _ _ he _ => hu he), hvalue]
  cases readPieces rest <;> rfl

/-- A digit is one byte, which has the value of the digit. -/
theorem hexDigit?_ofNat {c : Char} {v : Nat} (h : Text.Hex.digit? c = some v) :
    c.toNat < 128 ∧ v < 16 ∧ hexDigit? (UInt8.ofNat c.toNat) = some v := by
  have hrange : c.toNat < 128 ∧ v < 16 := by
    simp only [Text.Hex.digit?] at h
    split at h
    · cases h
      omega
    · split at h
      · cases h
        omega
      · split at h
        · cases h
          omega
        · cases h
  refine ⟨hrange.1, hrange.2, ?_⟩
  rw [hexDigit?, toNat_byte hrange.1, Char.ofNat_toNat, h]

/-- Four digits stand for the unit that they write. -/
theorem scans_unit {digits : List Char} {n : Nat} (h : IsUnit digits n) :
    n < 0x10000 ∧ Scans (utf8Bytes ('\\' :: 'u' :: digits)) [.unit n] := by
  cases h with
  | mk ha hb hc hd =>
    obtain ⟨ha, hw, ha'⟩ := hexDigit?_ofNat ha
    obtain ⟨hb, hx, hb'⟩ := hexDigit?_ofNat hb
    obtain ⟨hc, hy, hc'⟩ := hexDigit?_ofNat hc
    obtain ⟨hd, hz, hd'⟩ := hexDigit?_ofNat hd
    refine ⟨by omega, fun rest => ?_⟩
    rw [utf8Bytes_of_lt (by simp [ha, hb, hc, hd])]
    show readPieces (0x5C :: 0x75 :: UInt8.ofNat _ :: UInt8.ofNat _ :: UInt8.ofNat _
      :: UInt8.ofNat _ :: rest) = _
    rw [readPieces.eq_3]
    simp only [unit?, ha', hb', hc', hd', Option.bind_eq_bind, Option.bind_some, Option.pure_def]
    cases readPieces rest <;> rfl

/-- Bytes spell themselves. -/
theorem spell?_bytes (w : List UInt8) (pieces : List Piece) :
    spell? (w.map .byte ++ pieces) = (spell? pieces).map (w ++ ·) := by
  induction w with
  | nil => simp
  | cons b w ih =>
    rw [List.map_cons, List.cons_append, spell?.eq_2, ih, Option.map_map]
    rfl

/-- A unit that is no surrogate spells its character, whatever follows. -/
theorem spell?_unit {n : Nat} (h : n < 0xD800 ∨ 0xE000 ≤ n) (pieces : List Piece) :
    spell? (.unit n :: pieces) = (spell? pieces).map (utf8 n ++ ·) := by
  match pieces with
  | [] | .byte _ :: _ => rw [spell?.eq_4 n _ (by simp), if_neg (by omega)]
  | .unit m :: _ => rw [spell?.eq_3, if_neg (by omega), if_neg (by omega)]

/-- A low surrogate spells nothing if no high one stands in front of it. -/
theorem spell?_low {n : Nat} (h : 0xDC00 ≤ n ∧ n < 0xE000) (pieces : List Piece) :
    spell? (.unit n :: pieces) = none := by
  match pieces with
  | [] | .byte _ :: _ => rw [spell?.eq_4 n _ (by simp), if_pos (by omega)]
  | .unit m :: _ => rw [spell?.eq_3, if_neg (by omega), if_pos h]

/-- A high surrogate spells nothing in front of a byte. -/
theorem spell?_high_bytes {n : Nat} (h : 0xD800 ≤ n ∧ n < 0xDC00) {w : List UInt8} (hw : w ≠ [])
    (pieces : List Piece) : spell? (.unit n :: (w.map .byte ++ pieces)) = none := by
  obtain ⟨b, w, rfl⟩ := List.exists_cons_of_ne_nil hw
  rw [List.map_cons, List.cons_append, spell?.eq_4 n _ (by simp), if_pos (by omega)]

/-- A high surrogate and a low one spell one character together. -/
theorem spell?_pair {m n : Nat} (hm : 0xD800 ≤ m ∧ m < 0xDC00) (hn : 0xDC00 ≤ n ∧ n < 0xE000)
    (pieces : List Piece) : spell? (.unit m :: .unit n :: pieces)
      = (spell? pieces).map (utf8 (0x10000 + (m - 0xD800) * 0x400 + (n - 0xDC00)) ++ ·) := by
  rw [spell?.eq_3, if_pos hm, if_pos hn]

/-- A high surrogate spells nothing in front of any other unit. -/
theorem spell?_high_other {m n : Nat} (hm : 0xD800 ≤ m ∧ m < 0xDC00)
    (hn : ¬ (0xDC00 ≤ n ∧ n < 0xE000)) (pieces : List Piece) :
    spell? (.unit m :: .unit n :: pieces) = none := by
  rw [spell?.eq_3, if_pos hm, if_neg hn]

/-- The code point of a character is written as the character. -/
theorem utf8_toNat (c : Char) : utf8 c.toNat = String.utf8EncodeChar c := by
  rw [utf8, Char.ofNat_toNat, String.singleton_eq_ofList, Text.toUTF8_ofList, Text.utf8Bytes_cons,
    Text.utf8Bytes_nil, List.append_nil]

/-- A number that is no surrogate is the code point of a character. -/
theorem exists_char {n : Nat} (h : n < 0xD800 ∨ 0xE000 ≤ n ∧ n < 0x110000) :
    ∃ c : Char, c.toNat = n :=
  ⟨Char.ofNatAux n h, rfl⟩

/-- The code point of a character is no surrogate. -/
theorem toNat_not_surrogate (c : Char) : c.toNat < 0xD800 ∨ 0xE000 ≤ c.toNat :=
  c.valid.imp_right fun h => h.1

/-- What spells a text is read as pieces that spell its bytes. -/
theorem exists_scans_of_isSpelling {body cs : List Char} (h : IsSpelling body cs) :
    ∃ pieces, Scans (utf8Bytes body) pieces ∧ spell? pieces = some (utf8Bytes cs) := by
  induction h with
  | nil => exact ⟨[], scans_nil, rfl⟩
  | plain hc _ ih =>
    obtain ⟨pieces, hscans, hspell⟩ := ih
    refine ⟨_, (scans_plain hc).append hscans, ?_⟩
    rw [spell?_bytes, hspell]
    rfl
  | short hc _ ih =>
    obtain ⟨pieces, hscans, hspell⟩ := ih
    have happend := (scans_short hc).append hscans
    rw [← Text.utf8Bytes_append] at happend
    refine ⟨_, happend, ?_⟩
    rw [spell?_bytes, hspell]
    rfl
  | @unit digits rest cs c hunit _ ih =>
    obtain ⟨pieces, hscans, hspell⟩ := ih
    have happend := (scans_unit hunit).2.append hscans
    rw [← Text.utf8Bytes_append] at happend
    refine ⟨_, happend, ?_⟩
    rw [List.singleton_append, spell?_unit (toNat_not_surrogate c), hspell, utf8_toNat]
    rfl
  | @pair high low rest cs m n c hhigh hlow hm hn hc _ ih =>
    obtain ⟨pieces, hscans, hspell⟩ := ih
    have happend := (scans_unit hhigh).2.append ((scans_unit hlow).2.append hscans)
    rw [← Text.utf8Bytes_append, ← Text.utf8Bytes_append] at happend
    refine ⟨_, happend, ?_⟩
    rw [List.singleton_append, List.singleton_append, spell?_pair hm hn, hspell, ← hc, utf8_toNat]
    rfl

/-- The pieces of a literal spell a text only if the literal does. The second
half is what the induction needs where a high surrogate stands in front. -/
theorem exists_scans_of_isBody {body : List Char} (h : IsBody body) :
    ∃ pieces, Scans (utf8Bytes body) pieces ∧
      (∀ b, spell? pieces = some b → ∃ cs, IsSpelling body cs) ∧
      ∀ high m b, IsUnit high m → 0xD800 ≤ m ∧ m < 0xDC00 →
        spell? (.unit m :: pieces) = some b →
        ∃ cs, IsSpelling ('\\' :: 'u' :: (high ++ body)) cs := by
  induction h with
  | nil =>
    refine ⟨[], scans_nil, fun _ _ => ⟨[], .nil⟩, fun high m b _ hm hspell => ?_⟩
    rw [spell?.eq_4 m _ (by simp), if_pos (by omega)] at hspell
    cases hspell
  | @plain c rest hc _ ih =>
    obtain ⟨pieces, hscans, hbody, -⟩ := ih
    refine ⟨_, (scans_plain hc).append hscans, fun b hspell => ?_, fun high m b _ hm hspell => ?_⟩
    · rw [spell?_bytes] at hspell
      obtain ⟨b', hb', -⟩ := Option.map_eq_some_iff.mp hspell
      exact (hbody b' hb').imp' (c :: ·) fun _ hcs => .plain hc hcs
    · rw [spell?_high_bytes hm String.utf8EncodeChar_ne_nil] at hspell
      cases hspell
  | @short e c rest hc _ ih =>
    obtain ⟨pieces, hscans, hbody, -⟩ := ih
    have happend := (scans_short hc).append hscans
    rw [← Text.utf8Bytes_append] at happend
    refine ⟨_, happend, fun b hspell => ?_, fun high m b _ hm hspell => ?_⟩
    · rw [spell?_bytes] at hspell
      obtain ⟨b', hb', -⟩ := Option.map_eq_some_iff.mp hspell
      exact (hbody b' hb').imp' (c :: ·) fun _ hcs => .short hc hcs
    · rw [spell?_high_bytes hm String.utf8EncodeChar_ne_nil] at hspell
      cases hspell
  | @unit digits rest n hunit _ ih =>
    obtain ⟨pieces, hscans, hbody, hpaired⟩ := ih
    obtain ⟨hlt, hunits⟩ := scans_unit hunit
    have happend := hunits.append hscans
    rw [← Text.utf8Bytes_append] at happend
    refine ⟨_, happend, fun b hspell => ?_, fun high m b hhigh hm hspell => ?_⟩
    · -- A unit is a character of its own, a high surrogate or a low one.
      rw [List.singleton_append] at hspell
      by_cases hlow : 0xDC00 ≤ n ∧ n < 0xE000
      · rw [spell?_low hlow] at hspell
        cases hspell
      · by_cases hhigh : 0xD800 ≤ n ∧ n < 0xDC00
        · exact hpaired digits n b hunit hhigh hspell
        · rw [spell?_unit (by omega)] at hspell
          obtain ⟨b', hb', -⟩ := Option.map_eq_some_iff.mp hspell
          obtain ⟨c, rfl⟩ := exists_char (n := n) (by omega)
          exact (hbody b' hb').imp' (c :: ·) fun _ hcs => .unit hunit hcs
    · rw [List.singleton_append] at hspell
      by_cases hlow : 0xDC00 ≤ n ∧ n < 0xE000
      · rw [spell?_pair hm hlow] at hspell
        obtain ⟨b', hb', -⟩ := Option.map_eq_some_iff.mp hspell
        obtain ⟨c, hc⟩ := exists_char (n := 0x10000 + (m - 0xD800) * 0x400 + (n - 0xDC00)) (by omega)
        exact (hbody b' hb').imp' (c :: ·) fun _ hcs => .pair hhigh hunit hm hlow hc hcs
      · rw [spell?_high_other hm hlow] at hspell
        cases hspell

/-- A literal is read as a string token. -/
theorem scan?_string {w : List UInt8} {pieces : List Piece} (h : Scans w pieces)
    (rest : List UInt8) :
    scan? (0x22 :: (w ++ 0x22 :: rest)) = (scan? rest).map (.string (textOf? pieces) :: ·) := by
  have hpieces : readPieces (w ++ 0x22 :: rest) = some (pieces, rest) := by
    rw [h, readPieces.eq_2]
    simp only [Option.map_some, List.append_nil]
  rw [scan?.eq_def]
  simp only
  iterate 7 rw [if_neg (by decide)]
  rw [if_pos trivial]
  split
  · rename_i hnone
    rw [hpieces] at hnone
    exact absurd hnone (by simp)
  · rename_i ps tail hsome
    obtain ⟨rfl, rfl⟩ := Prod.mk.inj (Option.some.inj (hpieces.symm.trans hsome))
    rfl

/-- A string is read as the text that it spells. -/
theorem scan?_isString {cs : List Char} {s : Option String} (h : IsString cs s)
    (rest : List UInt8) :
    scan? (utf8Bytes cs ++ rest) = (scan? rest).map (.string s :: ·) := by
  have hquotes : ∀ body : List Char, utf8Bytes ('"' :: (body ++ ['"'])) ++ rest
      = 0x22 :: (utf8Bytes body ++ 0x22 :: rest) := by
    intro body
    rw [Text.utf8Bytes_cons, Text.utf8Bytes_append, List.append_assoc, List.append_assoc]
    rfl
  cases h with
  | @text body cs hspelling =>
    obtain ⟨pieces, hscans, hspell⟩ := exists_scans_of_isSpelling hspelling
    have htext : textOf? pieces = some (String.ofList cs) := by
      rw [textOf?, hspell, Option.bind_some]
      exact fromUTF8?_utf8Bytes cs
    rw [hquotes, scan?_string hscans, htext]
  | @garbled body hbody hno =>
    obtain ⟨pieces, hscans, hspelling, -⟩ := exists_scans_of_isBody hbody
    have htext : textOf? pieces = none := by
      cases hspell : spell? pieces with
      | none => rw [textOf?, hspell, Option.bind_none]
      | some b =>
        obtain ⟨cs, hcs⟩ := hspelling b hspell
        exact absurd hcs (hno cs)
    rw [hquotes, scan?_string hscans, htext]

/-! ### Numbers -/

/-- Nothing that could belong to a number stands in front. -/
def Delimited (rest : List UInt8) : Prop := ∀ b ∈ rest.head?, isNumberByte b = false

theorem delimited_nil : Delimited [] := fun _ h => absurd h (by simp)

theorem delimited_cons {b : UInt8} {rest : List UInt8} (h : isNumberByte b = false) :
    Delimited (b :: rest) := by
  rintro c hc
  rw [List.head?_cons, Option.mem_some_iff] at hc
  exact hc ▸ h

theorem isDigits_of_isDigits {ds : List Char} {n : Nat} (h : Text.IsDigits ds n) :
    isDigits ds = true := by
  rw [isDigits, List.isEmpty_eq_false_iff.mpr h.ne_nil, List.all_eq_true.mpr h.digits]
  rfl

/-- The digits of a number are a run of digits. -/
theorem isDigits_toDigits (n : Nat) : isDigits (Nat.toDigits 10 n) = true :=
  isDigits_of_isDigits
    ⟨Nat.toDigits_ne_nil, Text.isDigit_of_mem_digits n, Nat.ofDigitChars_ten_toDigits.symm⟩

/-- The digits of a number have no leading zero. -/
theorem no_leading_zero (n : Nat) :
    ((Nat.toDigits 10 n).head? = some '0' && (Nat.toDigits 10 n).length ≠ 1) = false := by
  rcases Nat.eq_zero_or_pos n with rfl | hpos
  · rfl
  · rw [decide_eq_false (Text.head?_toDigits hpos), Bool.false_and]

theorem head?_toDigits_ne_minus (n : Nat) : (Nat.toDigits 10 n).head? ≠ some '-' := by
  intro h
  have hdigit := Text.isDigit_of_mem_digits _ _ (List.mem_of_mem_head? h)
  exact absurd hdigit (by decide)

/-- What is read of a sign, the digits of a number and what stands behind them. -/
theorem number?_signed {sign tail : List Char} (n : Nat) (hsign : sign = [] ∨ sign = ['-'])
    (htail : Ends Char.isDigit tail) :
    number? (sign ++ (Nat.toDigits 10 n ++ tail)) =
      if tail = [] then
        if sign = [] then some (.integer n)
        else if n = 0 then
          some (.decimal (String.ofList (sign ++ (Nat.toDigits 10 n ++ tail))))
        else some (.integer (-(n : Int)))
      else if isFractionAndExponent tail then
        some (.decimal (String.ofList (sign ++ (Nat.toDigits 10 n ++ tail))))
      else none := by
  have htake := takeWhile_append (Text.isDigit_of_mem_digits n) htail
  have hdrop := dropWhile_append (Text.isDigit_of_mem_digits n) htail
  have hvalue : (Nat.toDigits 10 n).foldl (fun n c => 10 * n + (c.toNat - 48)) 0 = n :=
    Nat.ofDigitChars_ten_toDigits
  have hhead : (Nat.toDigits 10 n ++ tail).head? ≠ some '-' := by
    rw [List.head?_append_of_ne_nil _ Nat.toDigits_ne_nil]
    exact head?_toDigits_ne_minus n
  rcases hsign with rfl | rfl
  · simp only [number?, List.nil_append, hhead, if_false, htake, hdrop, isDigits_toDigits,
      no_leading_zero, hvalue, List.isEmpty_iff, Bool.not_true, Bool.or_false, Bool.false_eq_true,
      if_true]
  · simp only [number?, List.singleton_append, List.head?_cons, if_true, List.drop_one,
      List.tail_cons, htake, hdrop, isDigits_toDigits, no_leading_zero, hvalue, List.isEmpty_iff,
      Bool.not_true, Bool.or_false, Bool.false_eq_true, if_false, List.cons_ne_nil]

/-- An exponent is read as one, and does not begin with a digit. -/
theorem isExponent_of_isExponent {e : List Char} (h : IsExponent e) :
    isExponent e = true ∧ Ends Char.isDigit e := by
  cases h with
  | none => exact ⟨rfl, fun _ hc => absurd hc (by simp)⟩
  | @some e sign ds n he hsign hds =>
    have hletter : (decide (e = 'e') || decide (e = 'E')) = true := by
      rcases he with rfl | rfl <;> rfl
    refine ⟨?_, ?_⟩
    · rcases hsign with rfl | rfl | rfl
      · -- The first digit is no sign.
        obtain ⟨d, ds, rfl⟩ := List.exists_cons_of_ne_nil hds.ne_nil
        have hd := hds.digits d List.mem_cons_self
        rw [List.nil_append, isExponent.eq_4 e (d :: ds), hletter, isDigits_of_isDigits hds]
        · rfl
        · rintro _ heq
          cases heq
          exact absurd hd (by decide)
        · rintro _ heq
          cases heq
          exact absurd hd (by decide)
      · rw [List.singleton_append, isExponent.eq_2, hletter, isDigits_of_isDigits hds]
        rfl
      · rw [List.singleton_append, isExponent.eq_3, hletter, isDigits_of_isDigits hds]
        rfl
    · rintro c hc
      rw [List.head?_cons, Option.mem_some_iff] at hc
      subst hc
      rcases he with rfl | rfl <;> decide

/-- A fraction and an exponent are read as such, and do not begin with a digit. -/
theorem isFractionAndExponent_append {fraction exponent : List Char}
    (hfraction : IsFraction fraction) (hexponent : IsExponent exponent) :
    isFractionAndExponent (fraction ++ exponent) = true ∧
      Ends Char.isDigit (fraction ++ exponent) := by
  obtain ⟨hread, hends⟩ := isExponent_of_isExponent hexponent
  cases hfraction with
  | none =>
    refine ⟨?_, hends⟩
    rw [List.nil_append, isFractionAndExponent.eq_2, hread]
    rintro rest rfl
    cases hexponent with
    | some he => exact absurd he (by decide)
  | some hds =>
    refine ⟨?_, fun c hc => ?_⟩
    · rw [List.cons_append, isFractionAndExponent.eq_1, takeWhile_append hds.digits hends,
        dropWhile_append hds.digits hends, isDigits_of_isDigits hds, hread]
      rfl
    · rw [List.cons_append, List.head?_cons, Option.mem_some_iff] at hc
      exact hc ▸ rfl

/-- A number is read as that number. -/
theorem number?_eq {cs : List Char} {n : Number} (h : IsNumber cs n) : number? cs = some n := by
  have hnil : Ends Char.isDigit [] := fun _ hc => absurd hc (by simp)
  cases h with
  | natural n =>
    have hread := number?_signed n (.inl rfl) hnil
    rwa [List.append_nil, List.nil_append, if_pos rfl, if_pos rfl] at hread
  | @negative n hpos =>
    have hread := number?_signed n (.inr rfl) hnil
    rwa [List.append_nil, List.singleton_append, if_pos rfl, if_neg (List.cons_ne_nil _ _),
      if_neg (by omega)] at hread
  | negativeZero => rfl
  | @decimal sign fraction exponent n hsign hfraction hexponent hne =>
    obtain ⟨hread, hends⟩ := isFractionAndExponent_append hfraction hexponent
    have htail : fraction ++ exponent ≠ [] := by
      rcases hne with hne | hne <;> simp [hne]
    rw [number?_signed n hsign hends, if_neg htail, if_pos hread]

/-- A digit is a byte of numbers. -/
theorem isNumberByte_of_isDigit {c : Char} (h : c.isDigit = true) :
    c.toNat < 128 ∧ isNumberByte (UInt8.ofNat c.toNat) = true := by
  obtain ⟨hlo, hhi⟩ : 48 ≤ c.toNat ∧ c.toNat ≤ 57 := Char.isDigit_iff_toNat.mp h
  have hall : ∀ n < 58, 48 ≤ n → isNumberByte (UInt8.ofNat n) = true := by decide
  exact ⟨by omega, hall c.toNat (by omega) hlo⟩

/-- A number has only digits and the marks of numbers. -/
theorem mem_isNumber {cs : List Char} {n : Number} (h : IsNumber cs n) :
    ∀ c ∈ cs, c.isDigit = true ∨ c ∈ ['-', '+', '.', 'e', 'E'] := by
  have hdigits : ∀ n, ∀ c ∈ Nat.toDigits 10 n, c.isDigit = true ∨ c ∈ ['-', '+', '.', 'e', 'E'] :=
    fun n c hc => .inl (Text.isDigit_of_mem_digits n c hc)
  cases h with
  | natural n => exact hdigits n
  | @negative n _ => exact List.forall_mem_cons.mpr ⟨.inr (by decide), hdigits n⟩
  | negativeZero => simp
  | @decimal sign fraction exponent n hsign hfraction hexponent _ =>
    refine List.forall_mem_append.mpr ⟨?_, List.forall_mem_append.mpr ⟨hdigits n,
      List.forall_mem_append.mpr ⟨?_, ?_⟩⟩⟩
    · rcases hsign with rfl | rfl <;> simp
    · cases hfraction with
      | none => simp
      | some hds =>
        exact List.forall_mem_cons.mpr ⟨.inr (by decide), fun c hc => .inl (hds.digits c hc)⟩
    · cases hexponent with
      | none => simp
      | some he hsign hds =>
        refine List.forall_mem_cons.mpr ⟨?_, List.forall_mem_append.mpr ⟨?_,
          fun c hc => .inl (hds.digits c hc)⟩⟩
        · rcases he with rfl | rfl <;> decide
        · rcases hsign with rfl | rfl | rfl <;> simp

/-- A number is written with bytes of numbers. -/
theorem isNumberByte_of_mem {cs : List Char} {n : Number} (h : IsNumber cs n) :
    ∀ c ∈ cs, c.toNat < 128 ∧ isNumberByte (UInt8.ofNat c.toNat) = true := by
  have hmarks : ∀ c ∈ ['-', '+', '.', 'e', 'E'],
      c.toNat < 128 ∧ isNumberByte (UInt8.ofNat c.toNat) = true := by
    simp only [List.forall_mem_cons]
    exact ⟨by decide, by decide, by decide, by decide, by decide, nofun⟩
  intro c hc
  rcases mem_isNumber h c hc with hdigit | hmark
  · exact isNumberByte_of_isDigit hdigit
  · exact hmarks c hmark

/-- A byte of numbers begins no other token. -/
theorem ne_of_isNumberByte {b c : UInt8} (h : isNumberByte b = true)
    (hc : isNumberByte c = false) : b ≠ c := by
  rintro rfl
  exact absurd h (by simp [hc])

theorem isSpace_of_isNumberByte {b : UInt8} (h : isNumberByte b = true) : isSpace b = false := by
  have hne : ∀ c, isNumberByte c = false → (b == c) = false := fun c hc =>
    beq_eq_false_iff_ne.mpr (ne_of_isNumberByte h hc)
  rw [isSpace, hne 0x20 (by decide), hne 0x0A (by decide), hne 0x0D (by decide),
    hne 0x09 (by decide)]
  rfl

/-- A delimited number is read as that number. -/
theorem scan?_number {cs : List Char} {n : Number} (h : IsNumber cs n) {rest : List UInt8}
    (hrest : Delimited rest) :
    scan? (utf8Bytes cs ++ rest) = (scan? rest).map (.number n :: ·) := by
  have hbytes := isNumberByte_of_mem h
  have hread := number?_eq h
  have hascii : ∀ c ∈ cs, c.toNat < 128 := fun c hc => (hbytes c hc).1
  have hback := map_ofNat_utf8Bytes hascii
  have hall : ∀ b ∈ cs.map fun c => UInt8.ofNat c.toNat, isNumberByte b = true := by
    intro b hb
    obtain ⟨c, hc, rfl⟩ := List.mem_map.mp hb
    exact (hbytes c hc).2
  rw [utf8Bytes_of_lt hascii] at hback ⊢
  cases hw : cs.map fun c => UInt8.ofNat c.toNat with
  | nil =>
    rw [List.map_eq_nil_iff.mp hw, show number? [] = none from rfl] at hread
    cases hread
  | cons b w =>
    rw [hw] at hall hback
    obtain ⟨hb, hwAll⟩ := List.forall_mem_cons.mp hall
    rw [List.cons_append, scan?.eq_def]
    simp only [isSpace_of_isNumberByte hb, Bool.false_eq_true, if_false]
    iterate 7 rw [if_neg (ne_of_isNumberByte hb (by decide))]
    rw [if_pos hb, takeWhile_append hwAll hrest, dropWhile_append hwAll hrest, hback, hread]

/-! ### Texts -/

/-- The bytes `w` are read as the tokens `ts`, whatever delimited rest
stands behind them. -/
def Reads (w : List UInt8) (ts : List Token) : Prop :=
  ∀ rest, Delimited rest → scan? (w ++ rest) = (scan? rest).map (ts ++ ·)

/-- A whole text has the tokens that it is read as. -/
theorem Reads.scan? {w : List UInt8} {ts : List Token} (h : Reads w ts) : scan? w = some ts := by
  have hall := h [] delimited_nil
  rw [List.append_nil, scan?.eq_1, Option.map_some, List.append_nil] at hall
  exact hall

theorem reads_string {cs : List Char} {s : Option String} (h : IsString cs s) :
    Reads (utf8Bytes cs) [.string s] :=
  fun rest _ => scan?_isString h rest

theorem reads_number {cs : List Char} {n : Number} (h : IsNumber cs n) :
    Reads (utf8Bytes cs) [.number n] :=
  fun _ hrest => scan?_number h hrest

theorem reads_null : Reads (utf8Bytes ['n', 'u', 'l', 'l']) [.null] := by
  intro rest _
  show Token.scan? (0x6E :: 0x75 :: 0x6C :: 0x6C :: rest) = _
  rw [scan?.eq_def]
  rfl

theorem reads_true : Reads (utf8Bytes ['t', 'r', 'u', 'e']) [.bool true] := by
  intro rest _
  show Token.scan? (0x74 :: 0x72 :: 0x75 :: 0x65 :: rest) = _
  rw [scan?.eq_def]
  rfl

theorem reads_false : Reads (utf8Bytes ['f', 'a', 'l', 's', 'e']) [.bool false] := by
  intro rest _
  show Token.scan? (0x66 :: 0x61 :: 0x6C :: 0x73 :: 0x65 :: rest) = _
  rw [scan?.eq_def]
  rfl

/-- Blanks are no tokens, and delimit what stands in front of them. -/
theorem reads_blanks {cs : List Char} (h : AreBlanks cs) (rest : List UInt8) :
    Token.scan? (utf8Bytes cs ++ rest) = Token.scan? rest ∧
      (Delimited rest → Delimited (utf8Bytes cs ++ rest)) := by
  have hblanks : ∀ c ∈ [' ', '\n', '\r', '\t'],
      String.utf8EncodeChar c = [UInt8.ofNat c.toNat] ∧ isSpace (UInt8.ofNat c.toNat) = true ∧
        isNumberByte (UInt8.ofNat c.toNat) = false := by
    simp only [List.forall_mem_cons]
    exact ⟨by decide, by decide, by decide, by decide, nofun⟩
  induction cs with
  | nil => exact ⟨rfl, id⟩
  | cons c cs ih =>
    obtain ⟨hc, hcs⟩ := List.forall_mem_cons.mp h
    obtain ⟨hbyte, hspace, hdelimits⟩ := hblanks c hc
    rw [Text.utf8Bytes_cons, hbyte, List.append_assoc, List.singleton_append]
    refine ⟨?_, fun _ => delimited_cons hdelimits⟩
    rw [scan?.eq_def]
    simp only [hspace, if_true]
    exact (ih hcs).1

/-- Blanks around a text do not count. -/
theorem Reads.within_blanks {before cs after : List Char} (hbefore : AreBlanks before)
    {ts : List Token} (h : Reads (utf8Bytes cs) ts) (hafter : AreBlanks after) :
    Reads (utf8Bytes (before ++ (cs ++ after))) ts := by
  intro rest hrest
  obtain ⟨hscan, hdelimited⟩ := reads_blanks hafter rest
  rw [Text.utf8Bytes_append, Text.utf8Bytes_append, List.append_assoc, List.append_assoc,
    (reads_blanks hbefore _).1, h _ (hdelimited hrest), hscan]

theorem reads_of_blanks {cs : List Char} (h : AreBlanks cs) : Reads (utf8Bytes cs) [] := by
  intro rest _
  rw [(reads_blanks h rest).1]
  simp

/-- The tokens of a single byte. -/
def marks : List (Char × Token) :=
  [('[', .beginArray), (']', .endArray), ('\x7b', .beginObject), ('\x7d', .endObject),
    (',', .comma), (':', .colon)]

/-- A mark is its token, whatever stands behind it. -/
theorem scan?_mark {c : Char} {t : Token} (h : (c, t) ∈ marks) (rest : List UInt8) :
    Token.scan? (String.utf8EncodeChar c ++ rest) = (Token.scan? rest).map (t :: ·) := by
  simp only [marks, List.mem_cons, Prod.mk.injEq, List.not_mem_nil, or_false] at h
  rcases h with ⟨rfl, rfl⟩ | ⟨rfl, rfl⟩ | ⟨rfl, rfl⟩ | ⟨rfl, rfl⟩ | ⟨rfl, rfl⟩ | ⟨rfl, rfl⟩ <;>
    · rw [scan?.eq_def]
      rfl

/-- A mark delimits what stands in front of it. -/
theorem delimited_mark {c : Char} {t : Token} (h : (c, t) ∈ marks) (w : List UInt8) :
    Delimited (String.utf8EncodeChar c ++ w) := by
  simp only [marks, List.mem_cons, Prod.mk.injEq, List.not_mem_nil, or_false] at h
  rcases h with ⟨rfl, rfl⟩ | ⟨rfl, rfl⟩ | ⟨rfl, rfl⟩ | ⟨rfl, rfl⟩ | ⟨rfl, rfl⟩ | ⟨rfl, rfl⟩ <;>
    exact delimited_cons (by decide)

/-- A mark in front of a text. -/
theorem Reads.mark_append {c : Char} {t : Token} (hc : (c, t) ∈ marks) {w : List UInt8}
    {ts : List Token} (h : Reads w ts) : Reads (String.utf8EncodeChar c ++ w) (t :: ts) := by
  intro rest hrest
  rw [List.append_assoc, scan?_mark hc, h rest hrest, Option.map_map]
  rfl

/-- A mark between two texts delimits the first one. -/
theorem Reads.append_mark {w w' : List UInt8} {ts ts' : List Token} (h : Reads w ts) {c : Char}
    {t : Token} (hc : (c, t) ∈ marks) (h' : Reads w' ts') :
    Reads (w ++ (String.utf8EncodeChar c ++ w')) (ts ++ t :: ts') := by
  intro rest hrest
  have hd : Delimited (String.utf8EncodeChar c ++ w' ++ rest) := by
    rw [List.append_assoc]
    exact delimited_mark hc _
  rw [List.append_assoc, h _ hd, (h'.mark_append hc) rest hrest, Option.map_map]
  simp only [Function.comp_def, List.append_assoc]

end Backplane.Json.Token
