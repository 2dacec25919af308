import Mathlib.Data.List.Basic
import Mathlib.Data.String.Basic
import Mathlib.Tactic.SplitIfs

/-!
# `Backplane.Proofs.Text.Utf8`: the bytes of a text

A text is written as the UTF-8 bytes of its characters, one after the
other. An ASCII character is one byte below 128 and any other character
is bytes from 128 on, so a reader that looks for ASCII bytes never finds
one inside another character. The main statements:

* `toUTF8_ofList`: the bytes of a text are those of its characters.
* `fromUTF8?_utf8Bytes`: the bytes of a text spell that text.
* `utf8Bytes_of_lt`: an ASCII text has one byte for each character.
* `le_of_mem_utf8EncodeChar`: any other character is written without
  ASCII bytes.
* `exists_of_utf8Bytes_cons`, `exists_of_utf8Bytes_append`,
  `exists_of_takeWhile`: ASCII bytes at the front of a text are characters.
* `toUTF8_lt`: texts are in the order of their bytes.
-/

set_option autoImplicit false

namespace Backplane.Text

/-- The bytes of a list of characters. -/
def utf8Bytes (cs : List Char) : List UInt8 := cs.flatMap String.utf8EncodeChar

@[simp] theorem utf8Bytes_nil : utf8Bytes [] = [] := rfl

@[simp] theorem utf8Bytes_cons (c : Char) (cs : List Char) :
    utf8Bytes (c :: cs) = String.utf8EncodeChar c ++ utf8Bytes cs := rfl

@[simp] theorem utf8Bytes_append (cs ds : List Char) :
    utf8Bytes (cs ++ ds) = utf8Bytes cs ++ utf8Bytes ds := List.flatMap_append

/-- The bytes of a text are those of its characters. -/
theorem toUTF8_ofList (cs : List Char) : (String.ofList cs).toUTF8.data.toList = utf8Bytes cs := by
  simp [List.utf8Encode, utf8Bytes]

/-- The bytes of a text spell that text. -/
theorem fromUTF8?_utf8Bytes (cs : List Char) :
    String.fromUTF8? (ByteArray.mk (utf8Bytes cs).toArray) = some (String.ofList cs) := by
  rw [← toUTF8_ofList, Array.toArray_toList]
  show String.fromUTF8? (String.ofList cs).toByteArray = _
  rw [String.fromUTF8?, dif_pos (String.ofList cs).isValidUTF8]
  rfl

/-- An ASCII character is one byte. -/
theorem utf8EncodeChar_of_lt {c : Char} (h : c.toNat < 128) :
    String.utf8EncodeChar c = [UInt8.ofNat c.toNat] := by
  have hle : c.val.toNat ≤ 0x7f := Nat.le_of_lt_succ h
  exact if_pos hle

/-- An ASCII text has one byte for each character. -/
theorem utf8Bytes_of_lt {cs : List Char} (h : ∀ c ∈ cs, c.toNat < 128) :
    utf8Bytes cs = cs.map fun c => UInt8.ofNat c.toNat := by
  induction cs with
  | nil => rfl
  | cons c cs ih =>
    rw [utf8Bytes_cons, List.map_cons, utf8EncodeChar_of_lt (h c List.mem_cons_self),
      ih fun d hd => h d (List.mem_cons_of_mem c hd)]
    rfl

/-- Any other character is written without ASCII bytes. -/
theorem le_of_mem_utf8EncodeChar {c : Char} (h : 128 ≤ c.toNat) :
    ∀ b ∈ String.utf8EncodeChar c, 128 ≤ b.toNat := by
  -- what comes first in a character starts with 11 bits, what follows with 10
  have hmark : ∀ n m k : Nat, 0 < m → m + k ≤ 256 → 128 ≤ k →
      128 ≤ (UInt8.ofNat (n % m + k)).toNat := by
    intro n m k hm hmk hk
    have hlt := Nat.mod_lt n hm
    rw [UInt8.toNat_ofNat', Nat.mod_eq_of_lt (show n % m + k < 256 by omega)]
    omega
  fun_cases String.utf8EncodeChar c with
  | case1 v hle =>
    have hlt : c.toNat ≤ 0x7f := hle
    omega
  | case2 | case3 | case4 =>
    intro b hb
    simp only [List.mem_cons, List.not_mem_nil, or_false] at hb
    rcases hb with rfl | rfl | rfl | rfl <;> exact hmark _ _ _ (by decide) (by decide) (by decide)

/-! ### From the bytes back to the characters -/

/-- The byte of an ASCII character is its number. -/
theorem toNat_byte {c : Char} (h : c.toNat < 128) : (UInt8.ofNat c.toNat).toNat = c.toNat := by
  rw [UInt8.toNat_ofNat', Nat.mod_eq_of_lt (by omega)]

/-- A byte of an ASCII character begins that character and no other. -/
theorem exists_of_utf8Bytes_cons {cs : List Char} {b : UInt8} {w : List UInt8}
    (h : utf8Bytes cs = b :: w) (hb : b.toNat < 128) :
    ∃ c rest, cs = c :: rest ∧ b = UInt8.ofNat c.toNat ∧ c.toNat < 128 ∧ w = utf8Bytes rest := by
  cases cs with
  | nil => cases h
  | cons c cs =>
    rw [utf8Bytes_cons] at h
    by_cases hc : c.toNat < 128
    · rw [utf8EncodeChar_of_lt hc] at h
      obtain ⟨rfl, rfl⟩ := List.cons.inj h
      exact ⟨c, cs, rfl, rfl, hc, rfl⟩
    · obtain ⟨b', w', he⟩ := List.exists_cons_of_ne_nil (String.utf8EncodeChar_ne_nil (c := c))
      have hle := le_of_mem_utf8EncodeChar (Nat.le_of_not_lt hc) b' (he ▸ List.mem_cons_self)
      rw [he] at h
      obtain ⟨rfl, -⟩ := List.cons.inj h
      omega

/-- An ASCII character is known by its byte. -/
theorem eq_of_byte_eq {c d : Char} (hc : c.toNat < 128) (hd : d.toNat < 128)
    (h : UInt8.ofNat c.toNat = UInt8.ofNat d.toNat) : c = d := by
  have hnat := congrArg UInt8.toNat h
  rw [toNat_byte hc, toNat_byte hd] at hnat
  exact Char.toNat_inj.mp hnat

/-- The bytes of a list of ASCII characters in front of a text are those
characters. -/
theorem exists_of_utf8Bytes_append {front cs : List Char} {w : List UInt8}
    (hfront : ∀ c ∈ front, c.toNat < 128) (h : utf8Bytes cs = utf8Bytes front ++ w) :
    ∃ rest, cs = front ++ rest ∧ w = utf8Bytes rest := by
  induction front generalizing cs with
  | nil => exact ⟨cs, rfl, h.symm⟩
  | cons d front ih =>
    obtain ⟨hd, hfront⟩ := List.forall_mem_cons.mp hfront
    rw [utf8Bytes_cons, utf8EncodeChar_of_lt hd] at h
    obtain ⟨c, rest, rfl, hbyte, hc, hrest⟩ := exists_of_utf8Bytes_cons h ((toNat_byte hd).trans_lt hd)
    obtain rfl := eq_of_byte_eq hd hc hbyte
    obtain ⟨rest', rfl, hw⟩ := ih hfront hrest.symm
    exact ⟨rest', rfl, hw⟩

/-- Bytes of a class of ASCII bytes at the front of a text are characters. -/
theorem exists_of_takeWhile {p : UInt8 → Bool} (hp : ∀ b, p b = true → b.toNat < 128)
    (cs : List Char) : ∃ front rest, cs = front ++ rest ∧ (∀ c ∈ front, c.toNat < 128) ∧
      (utf8Bytes cs).takeWhile p = utf8Bytes front ∧
      (utf8Bytes cs).dropWhile p = utf8Bytes rest := by
  induction cs with
  | nil => exact ⟨[], [], rfl, by simp, rfl, rfl⟩
  | cons c cs ih =>
    obtain ⟨b, w, hbytes⟩ := List.exists_cons_of_ne_nil
      (show utf8Bytes (c :: cs) ≠ [] by simp [String.utf8EncodeChar_ne_nil])
    by_cases hb : p b = true
    · obtain ⟨c', rest', heq, hbyte, hc, rfl⟩ := exists_of_utf8Bytes_cons hbytes (hp b hb)
      obtain ⟨rfl, rfl⟩ := List.cons.inj heq
      obtain ⟨front, rest, rfl, hfront, htake, hdrop⟩ := ih
      refine ⟨c :: front, rest, rfl, List.forall_mem_cons.mpr ⟨hc, hfront⟩, ?_, ?_⟩
      · rw [hbytes, List.takeWhile_cons_of_pos hb, htake, utf8Bytes_cons,
          utf8EncodeChar_of_lt hc, hbyte]
        rfl
      · rw [hbytes, List.dropWhile_cons_of_pos hb, hdrop]
    · refine ⟨[], c :: cs, rfl, by simp, ?_, ?_⟩
      · rw [hbytes, List.takeWhile_cons_of_neg hb]
        rfl
      · rw [hbytes, List.dropWhile_cons_of_neg hb]

/-- The bytes of ASCII characters are read as these characters. -/
theorem map_ofNat_utf8Bytes {cs : List Char} (h : ∀ c ∈ cs, c.toNat < 128) :
    (utf8Bytes cs).map (fun b => Char.ofNat b.toNat) = cs := by
  rw [utf8Bytes_of_lt h, List.map_map]
  refine (List.map_congr_left fun c hc => ?_).trans (List.map_id _)
  show Char.ofNat (UInt8.ofNat c.toNat).toNat = c
  rw [toNat_byte (h c hc), Char.ofNat_toNat]

/-! ### Order -/

/-- Two lists of numbers differ before either ends, and the first list has the
smaller number there. -/
def Precedes : List Nat → List Nat → Prop
  | a :: as, b :: bs => a < b ∨ a = b ∧ Precedes as bs
  | _, _ => False

/-- The bytes of the character with the number `n`, as numbers. -/
def octets (n : Nat) : List Nat :=
  if n ≤ 0x7f then [n]
  else if n ≤ 0x7ff then [n / 64 % 32 + 192, n % 64 + 128]
  else if n ≤ 0xffff then [n / 4096 % 16 + 224, n / 64 % 64 + 128, n % 64 + 128]
  else [n / 262144 % 8 + 240, n / 4096 % 64 + 128, n / 64 % 64 + 128, n % 64 + 128]

theorem utf8EncodeChar_eq (c : Char) :
    String.utf8EncodeChar c = (octets c.val.toNat).map UInt8.ofNat := by
  unfold octets String.utf8EncodeChar
  simp only
  split_ifs <;> rfl

theorem octets_lt (n : Nat) : ∀ b ∈ octets n, b < 256 := by
  intro b hb
  unfold octets at hb
  split_ifs at hb <;> simp only [List.mem_cons, List.not_mem_nil, or_false] at hb <;> omega

/-- A character with a smaller number has bytes that come first. -/
theorem precedes_octets {n m : Nat} (h : n < m) (hm : m < 0x110000) :
    Precedes (octets n) (octets m) := by
  -- All bytes but the first are digits to the base 64.
  have hdigits : ∀ k : Nat, k / 4096 = k / 64 / 64 ∧ k / 262144 = k / 64 / 64 / 64 := by
    intro k
    omega
  unfold octets
  rw [(hdigits n).1, (hdigits n).2, (hdigits m).1, (hdigits m).2]
  split_ifs <;> simp only [Precedes] <;> omega

/-- What comes first does so as bytes, whatever follows. -/
theorem map_ofNat_append_lt {as bs : List Nat} (h : Precedes as bs) (hbs : ∀ b ∈ bs, b < 256)
    (us vs : List UInt8) : as.map UInt8.ofNat ++ us < bs.map UInt8.ofNat ++ vs := by
  fun_induction Precedes as bs with
  | case1 a as b bs ih =>
    rw [List.map_cons, List.map_cons, List.cons_append, List.cons_append, List.cons_lt_cons_iff]
    have hb := hbs b List.mem_cons_self
    rcases h with hlt | ⟨rfl, htail⟩
    · refine .inl ?_
      rw [UInt8.lt_iff_toNat_lt, UInt8.toNat_ofNat', UInt8.toNat_ofNat', Nat.mod_eq_of_lt hb,
        Nat.mod_eq_of_lt (hlt.trans hb)]
      exact hlt
    · exact .inr ⟨rfl, ih htail fun b hb => hbs b (List.mem_cons_of_mem _ hb)⟩
  | case2 => cases h

theorem toNat_lt (c : Char) : c.val.toNat < 0x110000 := by
  have hvalid := c.valid
  simp only [UInt32.isValidChar, Nat.isValidChar] at hvalid
  omega

theorem utf8EncodeChar_append_lt {c d : Char} (h : c < d) (us vs : List UInt8) :
    String.utf8EncodeChar c ++ us < String.utf8EncodeChar d ++ vs := by
  rw [utf8EncodeChar_eq, utf8EncodeChar_eq]
  exact map_ofNat_append_lt (precedes_octets h (toNat_lt d)) (octets_lt _) us vs

/-- Lists of characters are in the order of their bytes. -/
theorem utf8Bytes_lt {cs ds : List Char} (h : cs < ds) : utf8Bytes cs < utf8Bytes ds := by
  induction h with
  | @nil d ds =>
    rw [utf8Bytes_nil, utf8Bytes_cons]
    cases hbytes : String.utf8EncodeChar d with
    | nil => exact (String.utf8EncodeChar_ne_nil hbytes).elim
    | cons b bs => exact List.nil_lt_cons b _
  | rel h => exact utf8EncodeChar_append_lt h _ _
  | cons h ih => exact List.append_left_lt ih

/-- Texts are in the order of their bytes. -/
theorem toUTF8_lt {s t : String} (h : s < t) : s.toUTF8.data.toList < t.toUTF8.data.toList := by
  rw [← String.ofList_toList (s := s), ← String.ofList_toList (s := t), toUTF8_ofList,
    toUTF8_ofList]
  exact utf8Bytes_lt (String.lt_iff.mp h)

end Backplane.Text
