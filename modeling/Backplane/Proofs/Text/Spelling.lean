import Backplane.Proofs.Text.Base64

/-!
# `Backplane.Proofs.Text.Spelling`: one base-64 text for each byte string

`Backplane.Proofs.Text.Base64` shows that decoding reads what was encoded.
Here is the other half: it reads nothing else. A text that is accepted is
followed back through the decoder. Its symbols stand for six-bit values, its
padding is counted, and the values are those that the decoded bytes are
regrouped in, because the bits that no byte takes are zero. The main
statements:

* `eq_symbolByte_of_value?`: a byte that stands for a value is the symbol of
  this value.
* `eq_of_values`, `eq_of_readTail`: what is read as values are their symbols.
* `sextets_octets`: values without spare bits are regrouped in bytes and back.
* `decode_eq_ok_iff`: a text is decoded to bytes if and only if it is the text
  of these bytes.
* `getLast_sextets`: no text of bytes ends with spare bits.
-/

set_option autoImplicit false

namespace Backplane

/-- Two steps succeed if the first one does, and the second one on its result. -/
theorem bind_eq_ok {ε α β : Type} {x : Except ε α} {f : α → Except ε β} {b : β} :
    x >>= f = .ok b ↔ ∃ a, x = .ok a ∧ f a = .ok b := by
  constructor
  · intro h
    cases x with
    | error e => cases h
    | ok a => exact ⟨a, rfl, h⟩
  · rintro ⟨a, rfl, h⟩
    exact h

/-- A step whose error is renamed succeeds as before. -/
theorem mapError_eq_ok {ε ε' α : Type} {x : Except ε α} {f : ε → ε'} {a : α} :
    x.mapError f = .ok a ↔ x = .ok a := by
  cases x with
  | error e =>
    constructor <;>
    · intro h
      cases h
  | ok b =>
    constructor <;>
    · intro h
      cases h
      rfl

end Backplane

namespace Backplane.Text.Base64

variable {α : Alphabet} {p : Padding}

/-! ### Symbols that are read -/

/-- A byte that stands for a value is the symbol of this value. -/
theorem eq_symbolByte_of_value? {b : UInt8} {v : Nat} (h : α.value? b = some v) :
    v < 64 ∧ b = symbolByte α v := by
  have htable : ∀ n < 256, (α.value? (UInt8.ofNat n)).all (fun v =>
      decide (v < 64) && UInt8.ofNat n == symbolByte α v) = true := by
    cases α <;> decide +kernel
  have hb := htable b.toNat b.toNat_lt
  rw [UInt8.ofNat_toNat, h, Option.all_some, Bool.and_eq_true, decide_eq_true_iff,
    beq_iff_eq] at hb
  exact hb

/-- Different values have different symbols. -/
theorem symbol_injective {v w : Nat} (hv : v < 64) (hw : w < 64)
    (h : α.symbol v = α.symbol w) : v = w := by
  have hvalue := value?_symbol α v hv
  rw [h, value?_symbol α w hw] at hvalue
  exact (Option.some.inj hvalue).symm

/-- A run of bytes that is read as values is the run of their symbols. -/
theorem eq_of_values {offset : Nat} {bytes : List UInt8} {vs : List Nat}
    (h : values α offset bytes = .ok vs) :
    bytes = vs.map (symbolByte α) ∧ ∀ v ∈ vs, v < 64 := by
  induction bytes generalizing offset vs with
  | nil =>
    cases h
    exact ⟨rfl, by simp⟩
  | cons b rest ih =>
    simp only [values] at h
    cases hb : α.value? b with
    | none =>
      rw [hb] at h
      cases h
    | some v =>
      cases hrest : values α (offset + 1) rest with
      | error e =>
        rw [hb, hrest] at h
        cases h
      | ok ws =>
        rw [hb, hrest] at h
        cases h
        have hv := eq_symbolByte_of_value? hb
        have hws := ih hrest
        refine ⟨?_, ?_⟩
        · rw [List.map_cons, ← hv.2, ← hws.1]
        · intro w hw
          rcases List.mem_cons.mp hw with rfl | hw
          · exact hv.1
          · exact hws.2 w hw

/-- A last group that is read is a run of symbols and then padding, and both
are counted. -/
theorem eq_of_readTail {start i : Nat} {t t' : Tail} {bytes : List UInt8}
    (h : readTail α start i t bytes = .ok t') :
    ∃ vs n, bytes = vs.map (symbolByte α) ++ List.replicate n padByte ∧ (∀ v ∈ vs, v < 64) ∧
      t'.values = t.values ++ vs ∧ t'.pads = t.pads + n ∧ (0 < t.pads → vs = []) := by
  induction bytes generalizing i t with
  | nil =>
    cases h
    exact ⟨[], 0, rfl, by simp, (List.append_nil _).symm, rfl, fun _ => rfl⟩
  | cons b rest ih =>
    rw [readTail] at h
    by_cases hpad : b = padByte
    · rw [if_pos hpad] at h
      by_cases hi : i < 2
      · rw [if_pos hi] at h
        cases h
      · rw [if_neg hi] at h
        obtain ⟨vs, n, hrest, hlt, hvalues, hpads, hnil⟩ := ih h
        -- nothing but padding follows padding
        obtain rfl := hnil (Nat.succ_pos t.pads)
        refine ⟨[], n + 1, ?_, hlt, hvalues, ?_, fun _ => rfl⟩
        · rw [hpad, hrest]
          rfl
        · rw [hpads]
          show t.pads + 1 + n = t.pads + (n + 1)
          omega
    · rw [if_neg hpad] at h
      by_cases hpads : 0 < t.pads
      · rw [if_pos hpads] at h
        cases h
      · rw [if_neg hpads] at h
        cases hb : α.value? b with
        | none =>
          rw [hb] at h
          cases h
        | some v =>
          rw [hb] at h
          obtain ⟨vs, n, hrest, hlt, hvalues, hpads', _⟩ := ih h
          have hv := eq_symbolByte_of_value? hb
          refine ⟨v :: vs, n, ?_, ?_, ?_, hpads', fun hpos => absurd hpos hpads⟩
          · rw [hv.2, hrest]
            rfl
          · intro w hw
            rcases List.mem_cons.mp hw with rfl | hw
            · exact hv.1
            · exact hlt w hw
          · rw [hvalues]
            exact List.append_assoc ..

/-- A last group that passes its check has at least two symbols, as much padding
as it should, and no spare bits. -/
theorem of_checkTail {start : Nat} {t : Tail} {vs : List Nat} (h : checkTail p start t = .ok vs) :
    vs = t.values ∧ 2 ≤ vs.length ∧ hasSpareBits vs = false ∧
      match p with
      | .never => t.pads = 0
      | .always => (t.pads + vs.length) % 4 = 0 := by
  -- the two kinds of padding differ in one test
  cases p
  all_goals
    simp only [checkTail] at h
    split at h
    · cases h
    · rename_i hlength
      split at h
      · cases h
      · rename_i hpads
        split at h
        · cases h
        · rename_i hspare
          cases h
          exact ⟨rfl, Nat.le_of_not_lt hlength, by simpa using hspare, by simpa using hpads⟩

/-! ### Values and bytes -/

/-- The values of whole groups, and of a last group that has two or three of
them and no spare bits, are those of the bytes that they are regrouped in. -/
theorem sextets_octets {vs : List Nat} (hlt : ∀ v ∈ vs, v < 64) (hlength : vs.length % 4 ≠ 1)
    (hspare : hasSpareBits (vs.drop (vs.length / 4 * 4)) = false) : sextets (octets vs) = vs := by
  fun_induction octets vs with
  | case1 => rfl
  | case2 => exact absurd rfl hlength
  | case3 a b =>
    have ha : a < 64 := hlt a (by simp)
    have hb : b < 64 := hlt b (by simp)
    have hzero : b % 16 = 0 := by simpa [hasSpareBits] using hspare
    simp only [sextets, UInt8.toNat_ofNat', List.cons.injEq, and_true]
    omega
  | case4 a b c =>
    have ha : a < 64 := hlt a (by simp)
    have hb : b < 64 := hlt b (by simp)
    have hc : c < 64 := hlt c (by simp)
    have hzero : c % 4 = 0 := by simpa [hasSpareBits] using hspare
    simp only [sextets, UInt8.toNat_ofNat', List.cons.injEq, and_true]
    omega
  | case5 a b c d rest ih =>
    have ha : a < 64 := hlt a (by simp)
    have hb : b < 64 := hlt b (by simp)
    have hc : c < 64 := hlt c (by simp)
    have hd : d < 64 := hlt d (by simp)
    simp only [List.length_cons] at hlength hspare
    have hcut : (rest.length + 1 + 1 + 1 + 1) / 4 * 4 = rest.length / 4 * 4 + 1 + 1 + 1 + 1 := by
      omega
    rw [hcut] at hspare
    simp only [List.drop_succ_cons] at hspare
    have hrest := ih (fun v hv => hlt v (by simp [hv])) (by omega) hspare
    simp only [sextets, UInt8.toNat_ofNat', hrest, List.cons.injEq, and_true]
    omega

/-- Four values make three bytes, and what is left makes as many whole bytes as
it can. -/
theorem length_octets (vs : List Nat) : (octets vs).length = vs.length * 3 / 4 := by
  fun_induction octets vs with
  | case1 | case2 | case3 | case4 => simp
  | case5 a b c d rest ih =>
    simp only [List.length_cons, ih]
    omega

/-- The last value that bytes are regrouped in has no spare bits. -/
theorem getLast_sextets (bytes : List UInt8) :
    ∀ v ∈ (sextets bytes).getLast?, ((sextets bytes).length % 4 = 2 → v % 16 = 0) ∧
      ((sextets bytes).length % 4 = 3 → v % 4 = 0) := by
  fun_induction sextets bytes with
  | case1 => simp
  | case2 a =>
    simp
  | case3 a b =>
    simp
  | case4 a b c rest ih =>
    intro v hv
    simp only [List.length_cons]
    cases hrest : sextets rest with
    | nil => simp
    | cons w ws =>
      rw [hrest] at ih hv
      simp only [List.getLast?_cons_cons] at hv
      have hlast := ih v hv
      simp only [List.length_cons] at hlast ⊢
      exact ⟨fun hmod => hlast.1 (by omega), fun hmod => hlast.2 (by omega)⟩

/-! ### Whole texts -/

/-- The padding that stands behind a last group of two to four values is the
padding of the bytes. -/
theorem pads_octets {body last : List Nat} {n : Nat} (hbody : body.length % 4 = 0)
    (h2 : 2 ≤ last.length) (h4 : last.length + n ≤ 4)
    (hn : match p with
      | .never => n = 0
      | .always => (n + last.length) % 4 = 0) :
    pads p (octets (body ++ last)) = List.replicate n padByte := by
  cases p with
  | never =>
    rw [show n = 0 from hn]
    rfl
  | always =>
    have hmod : (n + last.length) % 4 = 0 := hn
    have hsum : last.length + n = 4 := by omega
    obtain ⟨q, hq⟩ := Nat.dvd_of_mod_eq_zero hbody
    have hlast : last.length = 2 ∨ last.length = 3 ∨ last.length = 4 := by omega
    have hlength : paddingLength (octets (body ++ last)) = n := by
      rw [paddingLength, length_octets, List.length_append, hq]
      rcases hlast with h | h | h <;> rw [h] at hsum ⊢ <;> omega
    rw [pads, hlength]

/-- Only the last group can have spare bits, and it has none if it is whole. -/
theorem hasSpareBits_append {body last : List Nat} (hbody : body.length % 4 = 0)
    (h2 : 2 ≤ last.length) (h4 : last.length ≤ 4) (h : hasSpareBits last = false) :
    hasSpareBits ((body ++ last).drop ((body ++ last).length / 4 * 4)) = false := by
  rw [List.length_append]
  by_cases hwhole : last.length = 4
  · have hcut : (body.length + last.length) / 4 * 4 = body.length + last.length := by omega
    rw [hcut, List.drop_eq_nil_of_le (Nat.le_of_eq List.length_append)]
    rfl
  · have hcut : (body.length + last.length) / 4 * 4 = body.length := by omega
    rw [hcut, List.drop_left]
    exact h

/-- A text that is decoded is the text of its bytes. -/
theorem eq_of_decode {text bytes : List UInt8} (h : decode α p text = .ok bytes) :
    text = (encode α p bytes).toUTF8.data.toList := by
  rw [toUTF8_encode]
  by_cases hempty : text = []
  · -- nothing stands for no bytes
    subst hempty
    cases h
    cases p <;> rfl
  have hpos : 0 < text.length := List.length_pos_iff.mpr hempty
  have hstart : bodyLength text.length = (text.length - 1) / 4 * 4 := rfl
  rw [decode, List.isEmpty_eq_false_iff.mpr hempty, if_neg (by decide)] at h
  cases hstray : strayByte? α text with
  | some b =>
    rw [hstray] at h
    cases h
  | none =>
    rw [hstray] at h
    obtain ⟨body, hbody, h⟩ := bind_eq_ok.mp h
    obtain ⟨t, htail, h⟩ := bind_eq_ok.mp h
    obtain ⟨last, hlast, h⟩ := bind_eq_ok.mp h
    cases h
    obtain ⟨hfront, hbodyLt⟩ := eq_of_values hbody
    obtain ⟨vs, n, hback, hlastLt, hvalues, hpads, _⟩ := eq_of_readTail htail
    obtain ⟨rfl, h2, hspare, hpadded⟩ := of_checkTail hlast
    -- the cut leaves one to four bytes for the last group
    have hlength : body.length = (text.length - 1) / 4 * 4 := by
      rw [← List.length_map (symbolByte α), ← hfront, List.length_take, hstart]
      omega
    have hrest : t.values.length + n = text.length - body.length := by
      rw [hvalues, List.nil_append, hlength, ← hstart, ← List.length_drop, hback,
        List.length_append, List.length_map, List.length_replicate]
    have hlt : ∀ v ∈ body ++ t.values, v < 64 := by
      intro v hv
      rcases List.mem_append.mp hv with hv | hv
      · exact hbodyLt v hv
      · rw [hvalues, List.nil_append] at hv
        exact hlastLt v hv
    have hround : sextets (octets (body ++ t.values)) = body ++ t.values := by
      refine sextets_octets hlt ?_ (hasSpareBits_append (by omega) h2 (by omega) hspare)
      rw [List.length_append]
      omega
    have hpadding : pads p (octets (body ++ t.values)) = List.replicate n padByte := by
      refine pads_octets (by omega) h2 (by omega) ?_
      cases p with
      | never => exact (Nat.zero_add n).symm.trans (hpads.symm.trans hpadded)
      | always =>
        simp only [hpads, Nat.zero_add] at hpadded
        exact hpadded
    rw [hround, hpadding, List.map_append, List.append_assoc, ← hfront, hvalues,
      List.nil_append, ← hback, List.take_append_drop]

/-- Different texts have different bytes. -/
theorem ofList_injective {cs ds : List Char}
    (h : (String.ofList cs).toUTF8.data.toList = (String.ofList ds).toUTF8.data.toList) :
    cs = ds := by
  have hbytes : (String.ofList cs).toByteArray = (String.ofList ds).toByteArray :=
    ByteArray.ext (Array.toList_inj.mp h)
  exact String.ofList_injective (String.toByteArray_inj.mp hbytes)

/-- A text is decoded to bytes if and only if it is the text of these bytes. -/
theorem decode_eq_ok_iff {cs : List Char} {bytes : List UInt8} :
    decode α p (String.ofList cs).toUTF8.data.toList = .ok bytes ↔ cs = encodeChars α p bytes := by
  constructor
  · intro h
    exact ofList_injective (eq_of_decode h)
  · intro h
    rw [h]
    exact decode_encode p bytes

end Backplane.Text.Base64
