import Backplane.Proofs.Json.Layout

/-!
# `Backplane.Proofs.Json.Exact`: nothing else is read

`Backplane.Proofs.Json.Token` and `Backplane.Proofs.Json.Tree` show that every
text of the grammar is read. Here is the converse. The scanner sees bytes, so
each step is carried back to characters: whatever it takes from the front of a
text ends where a character ends, and is a blank or the text of a token. What
is left is shorter, and the induction is on that. The main statements:

* `exists_isBody`, `isNumber_of_number?`: what is read as a string or a number
  is one.
* `lays_of_scan?`: a text that is scanned lays out its tokens.
* `ofString?_eq_some_iff`: a text is read as a tree if and only if it is a text
  of the tree.
-/

set_option autoImplicit false

namespace Backplane.Json

namespace Token

open Text

/-! ### Strings -/

/-- What stands behind pieces that are read is read as well. -/
theorem Scans.readPieces {w rest tail : List UInt8} {front pieces : List Piece} (h : Scans w front)
    (hread : readPieces (w ++ rest) = some (pieces, tail)) :
    ∃ back, readPieces rest = some (back, tail) := by
  rw [h] at hread
  obtain ⟨⟨back, tail'⟩, hback, heq⟩ := Option.map_eq_some_iff.mp hread
  obtain ⟨-, rfl⟩ := Prod.mk.inj heq
  exact ⟨back, hback⟩

/-- The byte of a hexadecimal digit is the digit. -/
theorem lt_of_hexDigit? {b : UInt8} {v : Nat} (h : hexDigit? b = some v) : b.toNat < 128 := by
  have hall : ∀ n < 256, (hexDigit? (UInt8.ofNat n)).isSome = true → n < 128 := by decide +kernel
  refine hall b.toNat b.toNat_lt ?_
  rw [UInt8.ofNat_toNat, h]
  rfl

/-- Four bytes that are read as a unit are the digits of the unit. -/
theorem exists_of_unit? {cs : List Char} {a b c d : UInt8} {w : List UInt8} {n : Nat}
    (hbytes : utf8Bytes cs = a :: b :: c :: d :: w) (h : unit? a b c d = some n) :
    ∃ digits rest, cs = digits ++ rest ∧ IsUnit digits n ∧ w = utf8Bytes rest := by
  simp only [unit?, Option.bind_eq_bind, Option.pure_def, Option.bind_eq_some_iff,
    Option.some.injEq] at h
  obtain ⟨v₁, h₁, v₂, h₂, v₃, h₃, v₄, h₄, rfl⟩ := h
  have hdigit : ∀ {c : Char} {v : Nat}, c.toNat < 128 → hexDigit? (UInt8.ofNat c.toNat) = some v →
      Text.Hex.digit? c = some v := by
    intro c v hc hv
    rwa [hexDigit?, toNat_byte hc, Char.ofNat_toNat] at hv
  obtain ⟨c₁, cs₁, rfl, rfl, hc₁, hrest₁⟩ := exists_of_utf8Bytes_cons hbytes (lt_of_hexDigit? h₁)
  obtain ⟨c₂, cs₂, rfl, rfl, hc₂, hrest₂⟩ :=
    exists_of_utf8Bytes_cons hrest₁.symm (lt_of_hexDigit? h₂)
  obtain ⟨c₃, cs₃, rfl, rfl, hc₃, hrest₃⟩ :=
    exists_of_utf8Bytes_cons hrest₂.symm (lt_of_hexDigit? h₃)
  obtain ⟨c₄, cs₄, rfl, rfl, hc₄, hrest₄⟩ :=
    exists_of_utf8Bytes_cons hrest₃.symm (lt_of_hexDigit? h₄)
  exact ⟨[c₁, c₂, c₃, c₄], cs₄, rfl,
    .mk (hdigit hc₁ h₁) (hdigit hc₂ h₂) (hdigit hc₃ h₃) (hdigit hc₄ h₄), hrest₄⟩

/-- The bytes that may follow a backslash are those of the table. -/
theorem exists_shortEscape {b : UInt8} (h : (simpleEscape? b).isSome = true) :
    ∃ e c, (e, c) ∈ shortEscapes ∧ b = UInt8.ofNat e.toNat ∧ e.toNat < 128 := by
  have hall : ∀ n < 256, (simpleEscape? (UInt8.ofNat n)).isSome = true →
      ∃ p ∈ shortEscapes, UInt8.ofNat n = UInt8.ofNat p.1.toNat ∧ p.1.toNat < 128 := by
    decide +kernel
  have hb := hall b.toNat b.toNat_lt
  rw [UInt8.ofNat_toNat] at hb
  obtain ⟨⟨e, c⟩, hp, hbyte, he⟩ := hb h
  exact ⟨e, c, hp, hbyte, he⟩

/-- A string literal goes on with its closing quote, with an escape, or with a
byte that needs none. -/
inductive Continues : List UInt8 → List UInt8 → Prop where
  | quote (tail : List UInt8) : Continues (0x22 :: tail) tail
  | unit {a b c d : UInt8} {n : Nat} (h : unit? a b c d = some n) (rest tail : List UInt8) :
      Continues (0x5C :: 0x75 :: a :: b :: c :: d :: rest) tail
  | short {e : UInt8} (h : (simpleEscape? e).isSome = true) (rest tail : List UInt8) :
      Continues (0x5C :: e :: rest) tail
  | byte {b : UInt8} (h : ¬ (b < 0x20 ∨ b = 0x5C)) (hquote : b ≠ 0x22) (rest tail : List UInt8) :
      Continues (b :: rest) tail

theorem continues_of_readPieces {w tail : List UInt8} {pieces : List Piece}
    (h : readPieces w = some (pieces, tail)) : Continues w tail := by
  rw [readPieces.eq_def] at h
  split at h
  · cases h
  · cases h
    exact .quote _
  · split at h
    · exact .unit ‹_› _ _
    · cases h
  · split at h
    · rename_i hb _
      exact .short (hb ▸ rfl) _ _
    · cases h
  · rename_i hquote _ _
    split at h
    · cases h
    · exact .byte ‹_› hquote _ _

/-- What is read as a string literal is one, up to the first quote that is not
escaped. -/
theorem exists_isBody {cs : List Char} {pieces : List Piece} {tail : List UInt8}
    (h : readPieces (utf8Bytes cs) = some (pieces, tail)) :
    ∃ body rest, cs = body ++ '"' :: rest ∧ IsBody body ∧ tail = utf8Bytes rest := by
  induction hlength : cs.length using Nat.strong_induction_on generalizing cs pieces with
  | _ k ih =>
    subst hlength
    -- Whatever stands in front has its pieces, and the rest is shorter.
    have hstep : ∀ (front : List Char) {rest : List Char} {ps : List Piece},
        cs = front ++ rest → front ≠ [] → Scans (utf8Bytes front) ps →
        (∀ body, IsBody body → IsBody (front ++ body)) →
        ∃ body rest, cs = body ++ '"' :: rest ∧ IsBody body ∧ tail = utf8Bytes rest := by
      rintro front rest ps rfl hne hscans hbody
      rw [utf8Bytes_append] at h
      obtain ⟨back, hback⟩ := hscans.readPieces h
      have hlt : rest.length < (front ++ rest).length := by
        rw [List.length_append]
        exact Nat.lt_add_of_pos_left (List.length_pos_of_ne_nil hne)
      obtain ⟨body, rest', rfl, hrest, htail⟩ := ih _ hlt hback rfl
      exact ⟨front ++ body, rest', (List.append_assoc ..).symm, hbody body hrest, htail⟩
    generalize hw : utf8Bytes cs = w at h
    cases continues_of_readPieces h with
    | quote =>
      obtain ⟨c, rest, rfl, hbyte, hc, htail⟩ := exists_of_utf8Bytes_cons hw (by decide)
      obtain rfl : c = '"' := eq_of_byte_eq hc (by decide) hbyte.symm
      exact ⟨[], rest, rfl, .nil, htail⟩
    | unit hunit =>
      obtain ⟨cs', rfl, hdigits⟩ : ∃ rest, cs = ['\\', 'u'] ++ rest ∧ _ = utf8Bytes rest :=
        exists_of_utf8Bytes_append (by simp) hw
      obtain ⟨digits, rest, rfl, hdigits, -⟩ := exists_of_unit? hdigits.symm hunit
      exact hstep ('\\' :: 'u' :: digits) rfl (List.cons_ne_nil _ _) (scans_unit hdigits).2
        fun _ hbody => .unit hdigits hbody
    | short hshort =>
      obtain ⟨cs', rfl, hletter⟩ : ∃ rest, cs = ['\\'] ++ rest ∧ _ = utf8Bytes rest :=
        exists_of_utf8Bytes_append (by simp) hw
      obtain ⟨e, c, htable, rfl, he⟩ := exists_shortEscape hshort
      obtain ⟨e', rest, rfl, hbyte, he', -⟩ :=
        exists_of_utf8Bytes_cons hletter.symm ((toNat_byte he).trans_lt he)
      obtain rfl := eq_of_byte_eq he he' hbyte
      exact hstep ['\\', e] rfl (List.cons_ne_nil _ _) (scans_short htable)
        fun _ hbody => .short htable hbody
    | @byte b hplain hquote w =>
      cases cs with
      | nil => cases hw
      | cons c rest =>
        have hc : IsPlain c := by
          by_cases hascii : c.toNat < 128
          · rw [utf8Bytes_cons, utf8EncodeChar_of_lt hascii] at hw
            obtain ⟨rfl, -⟩ := List.cons.inj hw
            rw [not_or, UInt8.lt_iff_toNat_lt, toNat_byte hascii] at hplain
            exact ⟨Nat.le_of_not_lt hplain.1, fun h => hquote (h ▸ rfl), fun h => hplain.2 (h ▸ rfl)⟩
          · refine ⟨by omega, ?_, ?_⟩
            · rintro rfl
              exact absurd hascii (by decide)
            · rintro rfl
              exact absurd hascii (by decide)
        exact hstep [c] rfl (List.cons_ne_nil _ _) (by simpa using scans_plain hc)
          fun _ hbody => .plain hc hbody

/-! ### Numbers -/

theorem exists_isDigits {ds : List Char} (h : isDigits ds = true) : ∃ n, Text.IsDigits ds n := by
  rw [isDigits, Bool.and_eq_true, Bool.not_eq_true', List.isEmpty_eq_false_iff] at h
  exact ⟨_, h.1, List.all_eq_true.mp h.2, rfl⟩

theorem isExponent_of_read {cs : List Char} (h : isExponent cs = true) : IsExponent cs := by
  have hletter : ∀ {e : Char}, (decide (e = 'e') || decide (e = 'E')) = true → e = 'e' ∨ e = 'E' :=
    fun he => by simpa using he
  unfold isExponent at h
  split at h
  · exact .none
  all_goals
    rw [Bool.and_eq_true] at h
    obtain ⟨n, hds⟩ := exists_isDigits h.2
  · exact .some (hletter h.1) (.inr (.inl rfl)) hds
  · exact .some (hletter h.1) (.inr (.inr rfl)) hds
  · exact .some (hletter h.1) (.inl rfl) hds

theorem exists_fraction {cs : List Char} (h : isFractionAndExponent cs = true) :
    ∃ fraction exponent, cs = fraction ++ exponent ∧ IsFraction fraction ∧ IsExponent exponent := by
  unfold isFractionAndExponent at h
  split at h
  · rename_i rest
    rw [Bool.and_eq_true] at h
    obtain ⟨n, hds⟩ := exists_isDigits h.1
    refine ⟨'.' :: rest.takeWhile Char.isDigit, rest.dropWhile Char.isDigit, ?_, .some hds,
      isExponent_of_read h.2⟩
    rw [List.cons_append, List.takeWhile_append_dropWhile]
  · exact ⟨[], cs, rfl, .none, isExponent_of_read h⟩

/-- A number is a sign, the digits of a number without leading zeros, and what
stands behind them. -/
theorem exists_signed {cs : List Char} {n : Number} (h : number? cs = some n) :
    ∃ sign m tail, (sign = [] ∨ sign = ['-']) ∧ Ends Char.isDigit tail ∧
      cs = sign ++ (Nat.toDigits 10 m ++ tail) := by
  obtain ⟨sign, body, hsign, rfl, hbody⟩ : ∃ sign body, (sign = [] ∨ sign = ['-']) ∧
      cs = sign ++ body ∧ (if cs.head? = some '-' then cs.drop 1 else cs) = body := by
    by_cases hhead : cs.head? = some '-'
    · obtain ⟨rest, rfl⟩ := List.head?_eq_some_iff.mp hhead
      exact ⟨['-'], rest, .inr rfl, rfl, rfl⟩
    · exact ⟨[], cs, .inl rfl, rfl, if_neg hhead⟩
  simp only [number?, hbody] at h
  split at h
  · cases h
  · rename_i hgood
    simp only [Bool.or_eq_true, Bool.not_eq_true', not_or, Bool.not_eq_false, Bool.and_eq_true,
      decide_eq_true_eq, not_and, ne_eq, not_not] at hgood
    obtain ⟨m, hds⟩ := exists_isDigits hgood.1
    have hdigits := Text.toDigits_ofDigitChars hds.ne_nil hds.digits hgood.2
    rw [← hds.value_eq] at hdigits
    refine ⟨sign, m, body.dropWhile Char.isDigit, hsign, ends_dropWhile _ _, ?_⟩
    rw [hdigits, List.takeWhile_append_dropWhile]

/-- What is read as a number is a number. -/
theorem isNumber_of_number? {cs : List Char} {n : Number} (h : number? cs = some n) :
    IsNumber cs n := by
  obtain ⟨sign, m, tail, hsign, htail, rfl⟩ := exists_signed h
  rw [number?_signed m hsign htail] at h
  split at h
  · rename_i hnil
    subst hnil
    rw [List.append_nil] at h ⊢
    rcases hsign with rfl | rfl
    · cases h
      exact .natural m
    · rw [if_neg (List.cons_ne_nil _ _)] at h
      split at h
      · rename_i hm
        subst hm
        cases h
        exact .negativeZero
      · cases h
        exact .negative (Nat.pos_of_ne_zero ‹_›)
  · rename_i hne
    split at h
    · obtain ⟨fraction, exponent, rfl, hfraction, hexponent⟩ := exists_fraction ‹_›
      cases h
      refine .decimal m hsign hfraction hexponent ?_
      rw [← not_and_or]
      rintro ⟨rfl, rfl⟩
      exact hne rfl
    · cases h

/-! ### Texts -/

/-- How a text goes on that is scanned: with nothing, with a blank, with a token
that is always written alike, with a string or with a number. -/
inductive GoesOn : List UInt8 → List Token → Prop where
  | nil : GoesOn [] []
  | blank {b : UInt8} {w : List UInt8} {ts : List Token} (hb : isSpace b = true)
      (h : scan? w = some ts) : GoesOn (b :: w) ts
  | lexeme {front : List Char} {w : List UInt8} {t : Token} {ts : List Token}
      (ht : IsLexeme front t) (hfront : ∀ c ∈ front, c.toNat < 128) (hne : front ≠ [])
      (h : scan? w = some ts) : GoesOn (utf8Bytes front ++ w) (t :: ts)
  | string {w tail : List UInt8} {pieces : List Piece} {ts : List Token}
      (h : readPieces w = some (pieces, tail)) : GoesOn (0x22 :: w) ts
  | number {b : UInt8} {w : List UInt8} {n : Number} {ts : List Token}
      (hb : isNumberByte b = true)
      (hn : number? ((b :: w.takeWhile isNumberByte).map fun b => Char.ofNat b.toNat) = some n)
      (h : scan? (w.dropWhile isNumberByte) = some ts) : GoesOn (b :: w) (.number n :: ts)

theorem goesOn_mark {c : Char} {t : Token} {w : List UInt8} {ts : List Token}
    (hc : (c, t) ∈ marks) (h : (scan? w).map (t :: ·) = some ts) :
    GoesOn (String.utf8EncodeChar c ++ w) ts := by
  have hascii : ∀ p ∈ marks, p.1.toNat < 128 := by decide
  obtain ⟨ts', hts', rfl⟩ := Option.map_eq_some_iff.mp h
  have hgoes := GoesOn.lexeme (.mark hc) (by simpa using hascii _ hc) (List.cons_ne_nil c []) hts'
  rwa [utf8Bytes_cons, utf8Bytes_nil, List.append_nil] at hgoes

theorem goesOn_of_scan? {w : List UInt8} {ts : List Token} (h : scan? w = some ts) :
    GoesOn w ts := by
  -- One case for each branch of the scanner, in their order there.
  rw [scan?.eq_def] at h
  split at h
  · cases h
    exact .nil
  split at h
  · exact .blank ‹_› h
  split at h
  · subst_vars
    exact goesOn_mark (by decide : ('[', Token.beginArray) ∈ marks) h
  split at h
  · subst_vars
    exact goesOn_mark (by decide : (']', Token.endArray) ∈ marks) h
  split at h
  · subst_vars
    exact goesOn_mark (by decide : ('\x7b', Token.beginObject) ∈ marks) h
  split at h
  · subst_vars
    exact goesOn_mark (by decide : ('\x7d', Token.endObject) ∈ marks) h
  split at h
  · subst_vars
    exact goesOn_mark (by decide : (',', Token.comma) ∈ marks) h
  split at h
  · subst_vars
    exact goesOn_mark (by decide : (':', Token.colon) ∈ marks) h
  split at h
  · subst_vars
    split at h
    · cases h
    · exact .string ‹_›
  split at h
  · split at h
    · cases h
    · obtain ⟨ts', hts', rfl⟩ := Option.map_eq_some_iff.mp h
      exact .number ‹_› ‹_› hts'
  · split at h
    · obtain ⟨ts', hts', rfl⟩ := Option.map_eq_some_iff.mp h
      exact .lexeme .null (by simp) (by simp) hts'
    · obtain ⟨ts', hts', rfl⟩ := Option.map_eq_some_iff.mp h
      exact .lexeme .true (by simp) (by simp) hts'
    · obtain ⟨ts', hts', rfl⟩ := Option.map_eq_some_iff.mp h
      exact .lexeme .false (by simp) (by simp) hts'
    · cases h

theorem exists_blank {b : UInt8} (h : isSpace b = true) :
    ∃ c ∈ [' ', '\n', '\r', '\t'], b = UInt8.ofNat c.toNat ∧ c.toNat < 128 := by
  simp only [isSpace, Bool.or_eq_true, beq_iff_eq] at h
  rcases h with ((rfl | rfl) | rfl) | rfl
  · exact ⟨' ', by simp, rfl, by decide⟩
  · exact ⟨'\n', by simp, rfl, by decide⟩
  · exact ⟨'\r', by simp, rfl, by decide⟩
  · exact ⟨'\t', by simp, rfl, by decide⟩

/-- A literal spells a text or none. -/
theorem exists_isString {body : List Char} (h : IsBody body) :
    ∃ s, IsString ('"' :: (body ++ ['"'])) s := by
  by_cases hspelling : ∃ cs, IsSpelling body cs
  · obtain ⟨cs, hcs⟩ := hspelling
    exact ⟨_, .text hcs⟩
  · exact ⟨none, .garbled h (not_exists.mp hspelling)⟩

theorem lt_of_isNumberByte {b : UInt8} (h : isNumberByte b = true) : b.toNat < 128 := by
  have hall : ∀ n < 256, isNumberByte (UInt8.ofNat n) = true → n < 128 := by decide +kernel
  exact hall b.toNat b.toNat_lt (by rwa [UInt8.ofNat_toNat])

/-- A text that is scanned is a text of its tokens. -/
theorem lays_of_scan? {cs : List Char} {ts : List Token} (h : scan? (utf8Bytes cs) = some ts) :
    Lays cs ts := by
  induction hlength : cs.length using Nat.strong_induction_on generalizing cs ts with
  | _ k ih =>
    subst hlength
    -- Whatever stands in front is a token, and the rest is shorter.
    have hstep : ∀ (front : List Char) {rest : List Char} {t : Token} {ts' : List Token},
        cs = front ++ rest → front ≠ [] → IsLexeme front t →
        scan? (utf8Bytes rest) = some ts' → Lays cs (t :: ts') := by
      rintro front rest t ts' rfl hne ht hrest
      have hlt : rest.length < (front ++ rest).length := by
        rw [List.length_append]
        exact Nat.lt_add_of_pos_left (List.length_pos_of_ne_nil hne)
      exact .token ht (ih _ hlt hrest rfl)
    generalize hw : utf8Bytes cs = w at h
    cases goesOn_of_scan? h with
    | nil =>
      cases cs with
      | nil => exact .nil
      | cons c cs => simp [String.utf8EncodeChar_ne_nil] at hw
    | @blank b w _ hb hscan =>
      obtain ⟨d, hd, hbyte, hascii⟩ := exists_blank hb
      obtain ⟨c, rest, rfl, hbyte', hc, rfl⟩ :=
        exists_of_utf8Bytes_cons hw (hbyte ▸ (toNat_byte hascii).trans_lt hascii)
      obtain rfl := eq_of_byte_eq hascii hc (hbyte.symm.trans hbyte')
      exact .blank hd (ih _ (Nat.lt_succ_self _) hscan rfl)
    | lexeme ht hfront hne hscan =>
      obtain ⟨rest, rfl, rfl⟩ := exists_of_utf8Bytes_append hfront hw
      exact hstep _ rfl hne ht hscan
    | string hpieces =>
      obtain ⟨c, cs', rfl, hbyte, hc, rfl⟩ := exists_of_utf8Bytes_cons hw (by decide)
      obtain rfl : c = '"' := eq_of_byte_eq hc (by decide) hbyte.symm
      obtain ⟨body, rest, rfl, hbody, -⟩ := exists_isBody hpieces
      -- The literal is read as what it spells, so this is the token that was read.
      obtain ⟨s, hs⟩ := exists_isString hbody
      have hquotes : '"' :: (body ++ '"' :: rest) = ('"' :: (body ++ ['"'])) ++ rest := by simp
      rw [← hw, hquotes, utf8Bytes_append, scan?_isString hs] at h
      obtain ⟨ts', hts', rfl⟩ := Option.map_eq_some_iff.mp h
      exact hstep _ hquotes (List.cons_ne_nil _ _) (.string hs) hts'
    | number hb hn hscan =>
      obtain ⟨c, cs', rfl, rfl, hc, rfl⟩ := exists_of_utf8Bytes_cons hw (lt_of_isNumberByte hb)
      obtain ⟨front, rest, rfl, hfront, htake, hdrop⟩ :=
        exists_of_takeWhile (fun _ => lt_of_isNumberByte) cs'
      have hliteral : ((UInt8.ofNat c.toNat :: utf8Bytes front).map fun b => Char.ofNat b.toNat)
          = c :: front := by
        have hchars := map_ofNat_utf8Bytes (List.forall_mem_cons.mpr ⟨hc, hfront⟩)
        rwa [utf8Bytes_cons, utf8EncodeChar_of_lt hc] at hchars
      rw [htake, hliteral] at hn
      rw [hdrop] at hscan
      exact hstep (c :: front) rfl (List.cons_ne_nil _ _) (.number (isNumber_of_number? hn)) hscan

end Token

/-- A text is read as a tree if and only if it is a text of that tree. -/
theorem ofString?_eq_some_iff {text : String} {t : Tree} :
    Tree.ofString? text = some t ↔ IsText text.toList t := by
  refine ⟨fun h => ?_, ofString?_of_isText⟩
  rw [Tree.ofString?, ← String.ofList_toList (s := text), Text.toUTF8_ofList,
    Tree.ofBytes?] at h
  obtain ⟨ts, hscan, htree⟩ := Option.bind_eq_some_iff.mp h
  obtain rfl := ofTokens?_eq_some_iff.mp htree
  exact isText_of_lays t _ (Token.lays_of_scan? hscan)

/-- So a text says one thing only. -/
theorem IsText.unique {cs : List Char} {t u : Tree} (h : IsText cs t) (h' : IsText cs u) :
    t = u := by
  have hread := ofBytes?_of_isText h
  rw [ofBytes?_of_isText h'] at hread
  exact (Option.some.inj hread).symm

end Backplane.Json
