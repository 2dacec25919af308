import Backplane.Proofs.Text.Utf8
import Backplane.Text.Base64

/-!
# `Backplane.Proofs.Text.Base64`: decoding what was encoded

A text is whole groups of four symbols and a last group of two to four
bytes, symbols or padding. The decoder reads the two parts apart, so the
bytes are cut the same way here: whole triples in front, and one to three
bytes behind them. The main statements:

* `sextets_append`: whole triples are regrouped on their own.
* `values_symbols`, `readTail_symbols`: symbols are read as the values
  that they were chosen for.
* `decode_encode`: decoding gives back the bytes that were encoded.
* `mem_encodeChars`: no text holds a character outside its alphabet.
-/

set_option autoImplicit false

namespace Backplane.Text.Base64

variable {α : Alphabet}

/-! ### Symbols -/

/-- The byte of the symbol of a value. -/
def symbolByte (α : Alphabet) (v : Nat) : UInt8 := UInt8.ofNat (α.symbol v).toNat

theorem value?_symbolByte {v : Nat} (h : v < 64) : α.value? (symbolByte α v) = some v :=
  value?_symbol α v h

/-- The padding is no symbol. -/
theorem symbolByte_ne_padByte {v : Nat} (h : v < 64) : symbolByte α v ≠ padByte := by
  intro he
  have hv := value?_symbolByte (α := α) h
  rw [he] at hv
  have hpad : α.value? padByte = none := by cases α <;> rfl
  rw [hpad] at hv
  exact absurd hv (by simp)

theorem symbol_lt {v : Nat} (h : v < 64) : (α.symbol v).toNat < 128 := by
  revert v
  cases α <;> decide

/-- Six-bit values are below 64. -/
theorem sextets_lt (bytes : List UInt8) : ∀ v ∈ sextets bytes, v < 64 := by
  fun_induction sextets bytes with
  | case1 => simp
  | case2 a =>
    have ha := a.toNat_lt
    simp only [List.mem_cons, List.not_mem_nil, or_false, forall_eq_or_imp, forall_eq]
    omega
  | case3 a b =>
    have ha := a.toNat_lt
    have hb := b.toNat_lt
    simp only [List.mem_cons, List.not_mem_nil, or_false, forall_eq_or_imp, forall_eq]
    omega
  | case4 a b c rest ih =>
    have ha := a.toNat_lt
    have hb := b.toNat_lt
    have hc := c.toNat_lt
    simp only [List.mem_cons, forall_eq_or_imp]
    refine ⟨?_, ?_, ?_, ?_, ih⟩ <;> omega

/-- Whole triples are regrouped on their own. -/
theorem sextets_append {pre : List UInt8} (h : pre.length % 3 = 0) (last : List UInt8) :
    sextets (pre ++ last) = sextets pre ++ sextets last := by
  fun_induction sextets pre with
  | case1 => rfl
  | case2 a => simp at h
  | case3 a b => simp at h
  | case4 a b c rest ih =>
    simp only [List.length_cons] at h
    simp only [List.cons_append, sextets, ih (show rest.length % 3 = 0 by omega)]

/-- Three bytes make four values. -/
theorem length_sextets {pre : List UInt8} (h : pre.length % 3 = 0) :
    (sextets pre).length = pre.length / 3 * 4 := by
  fun_induction sextets pre with
  | case1 => rfl
  | case2 a => simp at h
  | case3 a b => simp at h
  | case4 a b c rest ih =>
    simp only [List.length_cons] at h ⊢
    have := ih (show rest.length % 3 = 0 by omega)
    omega

/-- Symbols are read as the values that they were chosen for. -/
theorem values_symbols {vs : List Nat} (h : ∀ v ∈ vs, v < 64) (offset : Nat) :
    values α offset (vs.map (symbolByte α)) = .ok vs := by
  induction vs generalizing offset with
  | nil => rfl
  | cons v vs ih =>
    have hv : v < 64 := h v List.mem_cons_self
    have hvs : ∀ w ∈ vs, w < 64 := fun w hw => h w (List.mem_cons_of_mem v hw)
    simp only [List.map_cons, values, value?_symbolByte hv, ih hvs]
    rfl

/-- Symbols in the last group are read one by one. -/
theorem readTail_symbols {vs : List Nat} (h : ∀ v ∈ vs, v < 64) (start i : Nat) (xs : List Nat)
    (l : UInt8) (rest : List UInt8) :
    readTail α start i ⟨xs, l, 0⟩ (vs.map (symbolByte α) ++ rest)
      = readTail α start (i + vs.length)
          ⟨xs ++ vs, (vs.map (symbolByte α)).getLastD l, 0⟩ rest := by
  induction vs generalizing i xs l with
  | nil => simp
  | cons v vs ih =>
    have hv : v < 64 := h v List.mem_cons_self
    have hvs : ∀ w ∈ vs, w < 64 := fun w hw => h w (List.mem_cons_of_mem v hw)
    rw [List.map_cons, List.cons_append, readTail, if_neg (symbolByte_ne_padByte hv),
      if_neg (Nat.lt_irrefl 0), value?_symbolByte hv]
    simp only
    rw [ih hvs, List.append_assoc, List.length_cons, List.getLastD_cons,
      show i + 1 + vs.length = i + (vs.length + 1) by omega]
    rfl

/-- Padding behind two symbols is counted. -/
theorem readTail_pads (start i n : Nat) (hi : 2 ≤ i) (t : Tail) :
    readTail α start i t (List.replicate n padByte) = .ok { t with pads := t.pads + n } := by
  induction n generalizing i t with
  | zero => rfl
  | succ n ih =>
    rw [List.replicate_succ, readTail, if_pos rfl, if_neg (Nat.not_lt.mpr hi),
      ih (i + 1) (Nat.le_succ_of_le hi)]
    simp only [Nat.add_assoc, Nat.add_comm 1 n]

/-- The padding of a text of a number of bytes. -/
def pads (p : Padding) (bytes : List UInt8) : List UInt8 :=
  match p with
  | .never => []
  | .always => List.replicate (paddingLength bytes) padByte

/-- The last group of a text is read as its values and the length of its
padding. -/
theorem readTail_last (p : Padding) (start : Nat) {vs : List Nat} (h : ∀ v ∈ vs, v < 64)
    (h2 : 2 ≤ vs.length) (bytes : List UInt8) :
    readTail α start 0 ⟨[], 0, 0⟩ (vs.map (symbolByte α) ++ pads p bytes)
      = .ok ⟨vs, (vs.map (symbolByte α)).getLastD 0, (pads p bytes).length⟩ := by
  rw [readTail_symbols h]
  cases p with
  | never => rfl
  | always =>
    show readTail α start (0 + vs.length) _ (List.replicate (paddingLength bytes) padByte) = _
    rw [readTail_pads start (0 + vs.length) _ (by omega)]
    simp [pads]

/-- The last group of a text gives the values of its one to three
bytes. -/
theorem checkTail_last (p : Padding) (start : Nat) (l : UInt8) {bytes : List UInt8}
    (h0 : bytes ≠ []) (h3 : bytes.length ≤ 3) :
    checkTail p start ⟨sextets bytes, l, (pads p bytes).length⟩ = .ok (sextets bytes) := by
  match bytes, h0, h3 with
  | [a], _, _ =>
    have hspare : ¬ (a.toNat % 4 * 16 % 16 ≠ 0) := by omega
    cases p <;> simp [checkTail, sextets, pads, paddingLength, hasSpareBits]
  | [a, b], _, _ =>
    cases p <;> simp [checkTail, sextets, pads, paddingLength, hasSpareBits]
  | [a, b, c], _, _ =>
    cases p <;> simp [checkTail, sextets, pads, paddingLength, hasSpareBits]

/-! ### Whole texts -/

/-- A text holds symbols and padding, and nothing else. -/
theorem mem_encodeChars {p : Padding} {bytes : List UInt8} {c : Char}
    (h : c ∈ encodeChars α p bytes) : (∃ v < 64, c = α.symbol v) ∨ c = '=' := by
  unfold encodeChars at h
  rcases List.mem_append.mp h with hc | hc
  · obtain ⟨v, hv, rfl⟩ := List.mem_map.mp hc
    exact .inl ⟨v, sextets_lt bytes v hv, rfl⟩
  · cases p with
    | never => exact absurd hc List.not_mem_nil
    | always => exact .inr (List.eq_of_mem_replicate hc)

/-- The bytes of a text. -/
theorem toUTF8_encode (p : Padding) (bytes : List UInt8) :
    (encode α p bytes).toUTF8.data.toList
      = (sextets bytes).map (symbolByte α) ++ pads p bytes := by
  have hascii : ∀ c ∈ encodeChars α p bytes, c.toNat < 128 := by
    intro c hc
    rcases mem_encodeChars hc with ⟨v, hv, rfl⟩ | rfl
    · exact symbol_lt hv
    · decide
  unfold encode
  rw [toUTF8_ofList, utf8Bytes_of_lt hascii]
  unfold encodeChars
  rw [List.map_append, List.map_map]
  cases p with
  | never => rfl
  | always =>
    show _ ++ (List.replicate (paddingLength bytes) '=').map _ = _
    rw [List.map_replicate]
    rfl

/-- A text with bytes is cut in whole triples and a rest of one to three
bytes. -/
theorem exists_triples {bytes : List UInt8} (h : bytes ≠ []) :
    ∃ pre last, bytes = pre ++ last ∧ pre.length % 3 = 0 ∧ last ≠ [] ∧ last.length ≤ 3 := by
  have hlen : 0 < bytes.length := List.length_pos_iff.mpr h
  refine ⟨bytes.take ((bytes.length - 1) / 3 * 3), bytes.drop ((bytes.length - 1) / 3 * 3),
    (List.take_append_drop _ _).symm, ?_, ?_, ?_⟩
  · rw [List.length_take]
    omega
  · rw [← List.length_pos_iff, List.length_drop]
    omega
  · rw [List.length_drop]
    omega

/-- The last group of a text has two to four bytes. -/
theorem length_last (p : Padding) {last : List UInt8} (h0 : last ≠ []) (h3 : last.length ≤ 3) :
    2 ≤ (sextets last).length ∧ (sextets last).length + (pads p last).length ≤ 4 := by
  match last, h0, h3 with
  | [a], _, _ => cases p <;> simp [sextets, pads, paddingLength]
  | [a, b], _, _ => cases p <;> simp [sextets, pads, paddingLength]
  | [a, b, c], _, _ => cases p <;> simp [sextets, pads, paddingLength]

/-- Whole triples leave the padding to the bytes behind them. -/
theorem pads_append (p : Padding) {pre : List UInt8} (h : pre.length % 3 = 0)
    (last : List UInt8) : pads p (pre ++ last) = pads p last := by
  have hmod : (pre.length + last.length) % 3 = last.length % 3 := by omega
  unfold pads paddingLength
  rw [List.length_append, hmod]

/-- Decoding gives back the bytes that were encoded. -/
theorem decode_encode (p : Padding) (bytes : List UInt8) :
    decode α p (encode α p bytes).toUTF8.data.toList = .ok bytes := by
  rw [toUTF8_encode]
  by_cases hbytes : bytes = []
  · subst hbytes
    cases p <;> rfl
  obtain ⟨pre, last, rfl, hpre, h0, h3⟩ := exists_triples hbytes
  obtain ⟨h2, h4⟩ := length_last p h0 h3
  have hround := octets_sextets (pre ++ last)
  have hlt := sextets_lt (pre ++ last)
  rw [sextets_append hpre] at hround hlt
  rw [pads_append p hpre, sextets_append hpre, List.map_append, List.append_assoc]
  generalize hfront : (sextets pre).map (symbolByte α) = front
  generalize hback : (sextets last).map (symbolByte α) ++ pads p last = back
  have hfrontLen : front.length = pre.length / 3 * 4 := by
    rw [← hfront, List.length_map, length_sextets hpre]
  have hbackLen : back.length = (sextets last).length + (pads p last).length := by
    rw [← hback, List.length_append, List.length_map]
  -- the decoder cuts the text where the whole groups end, and no byte is left over
  have hcut : bodyLength (front ++ back).length = front.length := by
    rw [List.length_append, bodyLength]
    omega
  have hstray : strayByte? α (front ++ back) = none := by
    rw [strayByte?, List.length_append, if_neg (by omega)]
  have hempty : (front ++ back).isEmpty = false := by
    rw [List.isEmpty_eq_false_iff, ← List.length_pos_iff, List.length_append]
    omega
  have hvalues : values α 0 front = .ok (sextets pre) := by
    rw [← hfront]
    exact values_symbols (fun v hv => hlt v (List.mem_append_left _ hv)) 0
  have htail : readTail α front.length 0 ⟨[], 0, 0⟩ back
      = .ok ⟨sextets last, ((sextets last).map (symbolByte α)).getLastD 0,
          (pads p last).length⟩ := by
    rw [← hback]
    exact readTail_last p _ (fun v hv => hlt v (List.mem_append_right _ hv)) h2 last
  have hcheck := checkTail_last p front.length
    (((sextets last).map (symbolByte α)).getLastD 0) h0 h3
  rw [decode, hempty, if_neg (by decide), hstray]
  show (do
    let body ← values α 0 ((front ++ back).take (bodyLength (front ++ back).length))
    let t ← readTail α (bodyLength (front ++ back).length) 0 ⟨[], 0, 0⟩
      ((front ++ back).drop (bodyLength (front ++ back).length))
    let rest ← checkTail p (bodyLength (front ++ back).length) t
    return octets (body ++ rest)) = Except.ok (pre ++ last)
  rw [hcut, List.take_left, List.drop_left, hvalues, htail]
  show (checkTail p front.length _ >>= fun rest =>
    Except.ok (octets (sextets pre ++ rest))) = Except.ok (pre ++ last)
  rw [hcheck]
  exact congrArg Except.ok hround

end Backplane.Text.Base64
