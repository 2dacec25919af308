import Backplane.Net.Address
import Backplane.Proofs.Text.Numeral
import Backplane.Proofs.Text.Split
import Mathlib.Data.List.Forall2
import Mathlib.Data.Nat.Digits.Lemmas

/-!
# `Backplane.Proofs.Net.Address`: the texts of network addresses

A reader of addresses takes what it can from the front of a text and hopes for
the best. Here is what a text of an address is, said without any reader:
`IsQuad` for four octets with dots between them, and `IsGroups` for eight groups
with colons between them, of which a `::` may stand for one or more that are
zero, and a dotted quad for the last two. The main statements:

* `readOctet_eq_some_iff`, `readGroup_eq_some_iff`, `readQuad_eq_some_iff`: what
  the readers of the pieces take from a text.
* `readGroups_of_isRun`, `isRun_of_readGroups`: a run of pieces is read to its
  end, and nothing but a run is read.
* `parse?_v4_iff`, `parse?_v6_iff`: the reader accepts these texts and no others.
-/

set_option autoImplicit false

namespace Backplane.Net.Address

open Text (Ends takeWhile_append dropWhile_append ends_dropWhile)

/-! ### Texts of addresses -/

/-- The decimal numeral of a number up to 255. -/
structure IsOctet (text : List Char) (n : Nat) : Prop where
  text_eq : text = Nat.toDigits 10 n
  le : n ≤ 255

/-- Four octets with dots between them. -/
inductive IsQuad : List Char → List Nat → Prop where
  | mk {a b c d : List Char} {w x y z : Nat} (ha : IsOctet a w) (hb : IsOctet b x)
      (hc : IsOctet c y) (hd : IsOctet d z) :
      IsQuad (a ++ '.' :: (b ++ '.' :: (c ++ '.' :: d))) [w, x, y, z]

/-- A text of hexadecimal digits in either case, and their values. -/
def Values (text : List Char) (vs : List Nat) : Prop :=
  List.Forall₂ (fun c v => Text.Hex.digit? c = some v) text vs

/-- One to four hexadecimal digits, and the number that they
write. -/
structure IsGroup (text : List Char) (g : Nat) : Prop where
  ne_nil : text ≠ []
  length_le : text.length ≤ 4
  value : ∃ vs, Values text vs ∧ g = Nat.ofDigits 16 vs.reverse

/-- Groups with colons between them, or none. The flag tells whether a dotted
quad stands for the last two. -/
inductive IsRun : Bool → List Char → List Nat → Prop where
  | nil : IsRun false [] []
  | group {text : List Char} {g : Nat} (h : IsGroup text g) : IsRun false text [g]
  | quad {text : List Char} {a b c d : Nat} (h : IsQuad text [a, b, c, d]) :
      IsRun true text [256 * a + b, 256 * c + d]
  | cons {quad : Bool} {text rest : List Char} {g : Nat} {gs : List Nat} (h : IsGroup text g)
      (hne : gs ≠ []) (hrest : IsRun quad rest gs) : IsRun quad (text ++ ':' :: rest) (g :: gs)

/-- Eight groups, written out or with one `::` that stands for at least one
zero. -/
inductive IsGroups : List Char → List Nat → Prop where
  | full {quad : Bool} {text : List Char} {gs : List Nat} (h : IsRun quad text gs)
      (hlength : gs.length = 8) : IsGroups text gs
  | short {quad : Bool} {before after : List Char} {gs gs' : List Nat}
      (hbefore : IsRun false before gs) (hafter : IsRun quad after gs')
      (hlength : gs.length + gs'.length ≤ 7) :
      IsGroups (before ++ ':' :: ':' :: after)
        (gs ++ List.replicate (8 - gs.length - gs'.length) 0 ++ gs')

/-! ### Pieces at the front of a text -/

section Pieces

variable {cs ds rest : List Char} {n g : Nat} {os : List Nat}

/-- An octet is taken from a text if and only if the text begins with one, and
no further digit follows. -/
theorem readOctet_eq_some_iff : readOctet cs = some (n, rest) ↔
    ∃ ds, IsOctet ds n ∧ cs = ds ++ rest ∧ Ends Char.isDigit rest := by
  constructor
  · intro h
    simp only [readOctet] at h
    split at h
    · cases h
    · rename_i hgood
      simp only [not_or, not_and_or, not_not] at hgood
      obtain ⟨hne, _, hle, hzero⟩ := hgood
      simp only [Option.some.injEq, Prod.mk.injEq] at h
      obtain ⟨rfl, rfl⟩ := h
      have hdigits : ∀ c ∈ cs.takeWhile Char.isDigit, c.isDigit = true :=
        List.all_eq_true.mp List.all_takeWhile
      -- Without leading zeros the digits are those of the number.
      have htext := Text.toDigits_ofDigitChars hne hdigits fun hhead =>
        hzero.resolve_left (not_not.mpr hhead)
      exact ⟨_, ⟨htext.symm, Nat.le_of_not_lt hle⟩, List.takeWhile_append_dropWhile.symm,
        ends_dropWhile _ _⟩
  · rintro ⟨ds, ⟨rfl, hle⟩, rfl, hrest⟩
    have hdigits := Text.isDigit_of_mem_digits n
    have hvalue : (Nat.toDigits 10 n).foldl (fun n c => 10 * n + (c.toNat - 48)) 0 = n :=
      Nat.ofDigitChars_ten_toDigits
    have hlength : (Nat.toDigits 10 n).length ≤ 3 := by
      have hall : ∀ m < 256, (Nat.toDigits 10 m).length ≤ 3 := by decide +kernel
      exact hall n (Nat.lt_succ_of_le hle)
    have hzero : (Nat.toDigits 10 n).head? = some '0' → (Nat.toDigits 10 n).length = 1 := by
      intro hhead
      have hn : n = 0 := Nat.eq_zero_of_not_pos fun hpos => Text.head?_toDigits hpos hhead
      rw [hn]
      rfl
    simp only [readOctet, takeWhile_append hdigits hrest, dropWhile_append hdigits hrest, hvalue]
    -- None of the four reasons to refuse it applies.
    rw [if_neg]
    rintro (hnil | hlong | hbig | ⟨hhead, hne⟩)
    · exact Nat.toDigits_ne_nil hnil
    · omega
    · omega
    · exact hne (hzero hhead)

theorem isHexDigit_of_values {vs : List Nat} (h : Values ds vs) :
    ∀ c ∈ ds, isHexDigit c = true := by
  induction h with
  | nil => simp
  | cons hc _ ih => simpa [isHexDigit, hc] using ih

theorem values_of_digits (h : ∀ c ∈ ds, isHexDigit c = true) :
    Values ds (ds.map fun c => (Text.Hex.digit? c).getD 0) := by
  refine List.forall₂_map_right_iff.mpr (List.forall₂_same.mpr fun c hc => ?_)
  obtain ⟨v, hv⟩ := Option.isSome_iff_exists.mp (h c hc)
  rw [hv, Option.getD_some]

/-- The reader adds digit after digit. -/
theorem foldl_values {vs : List Nat} (h : Values ds vs) (m : Nat) :
    ds.foldl (fun m c => 16 * m + (Text.Hex.digit? c).getD 0) m
      = vs.foldl (fun m v => 16 * m + v) m := by
  induction h generalizing m with
  | nil => rfl
  | cons hc _ ih => rw [List.foldl_cons, List.foldl_cons, ih, hc, Option.getD_some]

theorem ofDigits_reverse (vs : List Nat) :
    vs.foldl (fun m v => 16 * m + v) 0 = Nat.ofDigits 16 vs.reverse := by
  rw [Nat.ofDigits_eq_foldr, List.foldr_reverse]
  simp [Nat.add_comm]

/-- A group is taken from a text if and only if the text begins with one, and no
further digit follows. -/
theorem readGroup_eq_some_iff : readGroup cs = some (g, rest) ↔
    ∃ ds, IsGroup ds g ∧ cs = ds ++ rest ∧ Ends isHexDigit rest := by
  constructor
  · intro h
    simp only [readGroup] at h
    split at h
    · cases h
    · rename_i hgood
      obtain ⟨hne, hle⟩ := not_or.mp hgood
      simp only [Option.some.injEq, Prod.mk.injEq] at h
      obtain ⟨rfl, rfl⟩ := h
      have hdigits : ∀ c ∈ cs.takeWhile isHexDigit, isHexDigit c = true :=
        List.all_eq_true.mp List.all_takeWhile
      have hvalues := values_of_digits hdigits
      refine ⟨_, ⟨hne, Nat.le_of_not_lt hle, _, hvalues, ?_⟩,
        List.takeWhile_append_dropWhile.symm, ends_dropWhile _ _⟩
      rw [foldl_values hvalues, ofDigits_reverse]
  · rintro ⟨ds, ⟨hne, hle, vs, hvs, rfl⟩, rfl, hrest⟩
    have hdigits := isHexDigit_of_values hvs
    simp only [readGroup, takeWhile_append hdigits hrest, dropWhile_append hdigits hrest]
    rw [if_neg (not_or.mpr ⟨hne, Nat.not_lt.mpr hle⟩), foldl_values hvs, ofDigits_reverse]

theorem afterDot_eq_some_iff : readQuad.afterDot cs = some rest ↔ cs = '.' :: rest := by
  unfold readQuad.afterDot
  split
  · simp
  · rename_i hno
    simpa using hno rest

/-- A dot ends the digits of an octet. -/
theorem readOctet_dot {n : Nat} (h : IsOctet ds n) (rest : List Char) :
    readOctet (ds ++ '.' :: rest) = some (n, '.' :: rest) :=
  readOctet_eq_some_iff.mpr ⟨ds, h, rfl, by simp [Ends]⟩

/-- Four octets are taken from a text if and only if it begins with them, and no
further digit follows. -/
theorem readQuad_eq_some_iff : readQuad cs = some (os, rest) ↔
    ∃ ds, IsQuad ds os ∧ cs = ds ++ rest ∧ Ends Char.isDigit rest := by
  constructor
  · intro h
    simp only [readQuad, Option.bind_eq_bind, Option.bind_eq_some_iff, Prod.exists,
      readOctet_eq_some_iff, afterDot_eq_some_iff, Option.pure_def, Option.some.injEq,
      Prod.mk.injEq] at h
    obtain ⟨_, _, ⟨a, ha, rfl, _⟩, _, rfl, _, _, ⟨b, hb, rfl, _⟩, _, rfl, _, _, ⟨c, hc, rfl, _⟩, _,
      rfl, _, _, ⟨d, hd, rfl, hrest⟩, rfl, rfl⟩ := h
    exact ⟨_, .mk ha hb hc hd, by simp, hrest⟩
  · rintro ⟨_, ⟨ha, hb, hc, hd⟩, rfl, hrest⟩
    have hlast := readOctet_eq_some_iff.mpr ⟨_, hd, rfl, hrest⟩
    simp [readQuad, readQuad.afterDot, readOctet_dot ha, readOctet_dot hb, readOctet_dot hc, hlast]

/-- No dotted quad begins where something else than a dot follows the digits. -/
theorem readQuad_eq_none (h : (cs.dropWhile Char.isDigit).head? ≠ some '.') :
    readQuad cs = none := by
  cases hoctet : readOctet cs with
  | none => simp [readQuad, hoctet]
  | some octet =>
    obtain ⟨ds, hds, rfl, hrest⟩ := readOctet_eq_some_iff.mp hoctet
    have hdigits : ∀ c ∈ ds, c.isDigit = true := by
      rw [hds.text_eq]
      exact Text.isDigit_of_mem_digits _
    rw [dropWhile_append hdigits hrest] at h
    have hdot : readQuad.afterDot octet.2 = none := by
      refine Option.eq_none_iff_forall_ne_some.mpr fun rest hsome => h ?_
      rw [afterDot_eq_some_iff.mp hsome]
      rfl
    simp [readQuad, hoctet, hdot]

end Pieces

/-! ### Runs of pieces -/

/-- A piece with the colon that stands in front of it, unless it is the
first. -/
def lead (first : Bool) (text : List Char) : List Char := if first then text else ':' :: text

/-- A text that is at its end, or goes on with a colon. -/
def Closed (rest : List Char) : Prop := ∀ c ∈ rest.head?, c = ':'

/-- A text that is at its end, or goes on with two colons. -/
def Stops (rest : List Char) : Prop := rest = [] ∨ ∃ after, rest = ':' :: ':' :: after

variable {first quad : Bool} {cs rest text : List Char} {g limit : Nat} {gs pair : List Nat}

theorem Closed.ends (h : Closed rest) : Ends isHexDigit rest ∧ Ends Char.isDigit rest := by
  refine ⟨fun c hc => ?_, fun c hc => ?_⟩ <;>
  · rw [h c hc]
    decide

theorem Stops.closed (h : Stops rest) : Closed rest := by
  rcases h with rfl | ⟨after, rfl⟩ <;> simp [Closed]

theorem afterColon_eq_some_iff : afterColon first cs = some rest ↔ cs = lead first rest := by
  cases first with
  | true => simp [afterColon, lead]
  | false =>
    unfold afterColon
    simp only [Bool.false_eq_true, if_false, lead]
    split
    · simp
    · rename_i hno
      simpa using hno rest

/-- Two groups are taken from a text as a dotted quad if and only if the text
begins with one. -/
theorem readEmbedded_eq_some_iff : readEmbedded first cs = some (pair, rest) ↔
    ∃ ds a b c d, IsQuad ds [a, b, c, d] ∧ pair = [256 * a + b, 256 * c + d] ∧
      cs = lead first (ds ++ rest) ∧ Ends Char.isDigit rest := by
  constructor
  · intro h
    simp only [readEmbedded, Option.bind_eq_bind, Option.bind_eq_some_iff, Prod.exists,
      afterColon_eq_some_iff, readQuad_eq_some_iff] at h
    obtain ⟨_, rfl, os, _, ⟨ds, hquad, rfl, hrest⟩, h⟩ := h
    cases hquad with
    | mk ha hb hc hd =>
      simp only [Option.pure_def, Option.some.injEq, Prod.mk.injEq] at h
      obtain ⟨rfl, rfl⟩ := h
      exact ⟨_, _, _, _, _, .mk ha hb hc hd, rfl, rfl, hrest⟩
  · rintro ⟨ds, a, b, c, d, hquad, rfl, rfl, hrest⟩
    have hcolon : afterColon first (lead first (ds ++ rest)) = some (ds ++ rest) :=
      afterColon_eq_some_iff.mpr rfl
    have hread : readQuad (ds ++ rest) = some ([a, b, c, d], rest) :=
      readQuad_eq_some_iff.mpr ⟨ds, hquad, rfl, hrest⟩
    simp [readEmbedded, hcolon, hread]

/-- What looks like a group and ends there is no dotted quad. -/
theorem readQuad_group (h : IsGroup text g) (hrest : Closed rest) :
    readQuad (text ++ rest) = none := by
  obtain ⟨vs, hvs, _⟩ := h.value
  have hdigits := isHexDigit_of_values hvs
  -- What follows the decimal digits is a letter, a colon or nothing.
  have hhead : ∀ ds : List Char, (∀ c ∈ ds, isHexDigit c = true) →
      ((ds ++ rest).dropWhile Char.isDigit).head? ≠ some '.' := by
    intro ds hds
    induction ds with
    | nil =>
      cases rest with
      | nil => simp
      | cons c rest =>
        have hc : c = ':' := hrest c rfl
        simp [hc, Char.isDigit]
    | cons c ds ih =>
      rw [List.cons_append, List.dropWhile_cons]
      split
      · exact ih fun c hc => hds c (by simp [hc])
      · intro hdot
        have hc : c = '.' := by simpa using hdot
        exact absurd (hds c (by simp)) (by rw [hc]; decide)
  exact readQuad_eq_none (hhead text hdigits)

theorem readEmbedded_eq_none (h : readQuad text = none) :
    readEmbedded first (lead first text) = none := by
  have hcolon : afterColon first (lead first text) = some text := afterColon_eq_some_iff.mpr rfl
  simp [readEmbedded, hcolon, h]

/-- A group in front is read, and then the rest of the run. -/
theorem readGroups_group (h : IsGroup text g) (hrest : Closed rest) :
    readGroups first (limit + 1) (lead first (text ++ rest))
      = (g :: (readGroups false limit rest).1, (readGroups false limit rest).2) := by
  have hcolon : afterColon first (lead first (text ++ rest)) = some (text ++ rest) :=
    afterColon_eq_some_iff.mpr rfl
  have hread : readGroup (text ++ rest) = some (g, rest) :=
    readGroup_eq_some_iff.mpr ⟨text, h, rfl, hrest.ends.1⟩
  rw [readGroups, readEmbedded_eq_none (readQuad_group h hrest)]
  simp [hcolon, hread]

/-- No piece begins with a colon. -/
theorem pieces_of_closed (h : Closed text) : readQuad text = none ∧ readGroup text = none := by
  obtain ⟨hhex, hdigit⟩ := h.ends
  have hdrop : ([] ++ text).dropWhile Char.isDigit = text := dropWhile_append (by simp) hdigit
  have htake : ([] ++ text).takeWhile isHexDigit = [] := takeWhile_append (by simp) hhex
  rw [List.nil_append] at hdrop htake
  refine ⟨readQuad_eq_none ?_, by simp [readGroup, htake]⟩
  rw [hdrop]
  intro hdot
  exact absurd (h '.' hdot) (by decide)

/-- Nothing is read where a run stops. -/
theorem readGroups_stop (hrest : Stops rest) : readGroups first limit rest = ([], false, rest) := by
  -- If there is a piece to read at all, it would have to begin with a colon.
  have hclosed : ∀ text, afterColon first rest = some text → Closed text := by
    intro text htext
    have hlead := afterColon_eq_some_iff.mp htext
    cases first with
    | true => exact (show rest = text from hlead) ▸ hrest.closed
    | false =>
      rcases hrest with rfl | ⟨after, rfl⟩
      · simp [lead] at hlead
      · have heq : ':' :: after = text := by simpa [lead] using hlead
        simp [← heq, Closed]
  have hgroup : (afterColon first rest).bind readGroup = none := by
    rw [Option.bind_eq_none_iff]
    exact fun text htext => (pieces_of_closed (hclosed text htext)).2
  have hquad : readEmbedded first rest = none := by
    refine Option.bind_eq_none_iff.mpr fun text htext => ?_
    simp [(pieces_of_closed (hclosed text htext)).1]
  cases limit with
  | zero => rfl
  | succ limit => simp [readGroups, hquad, hgroup]

/-- A run of pieces is read to its end. -/
theorem readGroups_of_isRun (h : IsRun quad text gs) (hne : gs ≠ []) (hlimit : gs.length ≤ limit)
    (hrest : Stops rest) : readGroups first limit (lead first (text ++ rest)) = (gs, quad, rest) := by
  induction h generalizing first limit with
  | nil => exact absurd rfl hne
  | @group text g h =>
    obtain ⟨limit, rfl⟩ : ∃ m, limit = m + 1 := ⟨limit - 1, by simp at hlimit; omega⟩
    rw [readGroups_group h hrest.closed, readGroups_stop hrest]
  | @quad text a b c d h =>
    obtain ⟨limit, rfl⟩ : ∃ m, limit = m + 2 := ⟨limit - 2, by simp at hlimit; omega⟩
    have hread : readEmbedded first (lead first (text ++ rest))
        = some ([256 * a + b, 256 * c + d], rest) :=
      readEmbedded_eq_some_iff.mpr ⟨text, a, b, c, d, h, rfl, rfl, hrest.closed.ends.2⟩
    simp [readGroups, hread]
  | @cons quad text after g gs h hgs _ ih =>
    obtain ⟨limit, rfl⟩ : ∃ m, limit = m + 1 := ⟨limit - 1, by simp at hlimit; omega⟩
    have hafter : readGroups false limit (':' :: (after ++ rest)) = (gs, quad, rest) :=
      ih hgs (by simpa using hlimit)
    rw [List.append_assoc, List.cons_append, readGroups_group h (by simp [Closed]), hafter]

/-- Nothing but a run is read. -/
theorem isRun_of_readGroups (h : readGroups first limit cs = (gs, quad, rest)) :
    gs.length ≤ limit ∧ (gs = [] ∧ quad = false ∧ cs = rest ∨
      ∃ text, gs ≠ [] ∧ IsRun quad text gs ∧ cs = lead first (text ++ rest)) := by
  induction limit generalizing first cs gs quad rest with
  | zero =>
    cases h
    exact ⟨Nat.le_refl 0, .inl ⟨rfl, rfl, rfl⟩⟩
  | succ limit ih =>
    rw [readGroups] at h
    split at h
    · -- A dotted quad, which ends the run.
      rename_i pair after hembedded
      cases h
      split at hembedded
      · obtain ⟨ds, a, b, c, d, hquad, rfl, rfl, _⟩ := readEmbedded_eq_some_iff.mp hembedded
        refine ⟨?_, .inr ⟨ds, by simp, .quad hquad, rfl⟩⟩
        simp only [List.length_cons, List.length_nil]
        omega
      · cases hembedded
    · split at h
      · cases h
        exact ⟨Nat.zero_le _, .inl ⟨rfl, rfl, rfl⟩⟩
      · -- A group, and then what follows it.
        rename_i g after hgroup
        obtain ⟨front, hfront, hread⟩ := Option.bind_eq_some_iff.mp hgroup
        obtain ⟨ds, hds, rfl, _⟩ := readGroup_eq_some_iff.mp hread
        rw [afterColon_eq_some_iff.mp hfront]
        cases hnext : readGroups false limit after with
        | mk gs' last =>
          obtain ⟨quad', rest'⟩ := last
          rw [hnext] at h
          cases h
          obtain ⟨hle, hrun⟩ := ih hnext
          refine ⟨by simpa using hle, .inr ?_⟩
          rcases hrun with ⟨rfl, rfl, rfl⟩ | ⟨text, hne, hrun, rfl⟩
          · exact ⟨ds, by simp, .group hds, rfl⟩
          · exact ⟨ds ++ ':' :: text, by simp, .cons hds hne hrun, by simp [lead]⟩

/-! ### Whole addresses -/

/-- A run that stands at the front of a text is read to its end, also if it is
empty. -/
theorem readGroups_front (h : IsRun quad text gs) (hlimit : gs.length ≤ limit)
    (hrest : Stops rest) : readGroups true limit (text ++ rest) = (gs, quad, rest) := by
  by_cases hne : gs = []
  · subst hne
    cases h
    exact readGroups_stop hrest
  · exact readGroups_of_isRun h hne hlimit hrest

/-- What is read from the front of a text is a run. -/
theorem isRun_of_front (h : readGroups true limit cs = (gs, quad, rest)) :
    gs.length ≤ limit ∧ ∃ text, IsRun quad text gs ∧ cs = text ++ rest := by
  obtain ⟨hle, ⟨rfl, rfl, rfl⟩ | ⟨text, _, hrun, rfl⟩⟩ := isRun_of_readGroups h
  · exact ⟨hle, [], .nil, rfl⟩
  · exact ⟨hle, text, hrun, rfl⟩

/-- Eight groups are read from a text if and only if it writes them. -/
theorem readV6_eq_some_iff : readV6 cs = some (gs, []) ↔ IsGroups cs gs := by
  constructor
  · intro h
    unfold readV6 at h
    cases hhead : readGroups true 8 cs with
    | mk hs last =>
      obtain ⟨quad, rest⟩ := last
      obtain ⟨hle, text, hrun, rfl⟩ := isRun_of_front hhead
      rw [hhead] at h
      simp only at h
      split at h
      · -- All eight groups are written out.
        rename_i hlength
        cases h
        rw [List.append_nil]
        exact .full hrun hlength
      · split at h
        · cases h
        · rename_i hquad
          have hquad : quad = false := by simpa using hquad
          subst hquad
          split at h
          · -- The compressed part, and the groups behind it.
            rename_i after
            cases htail : readGroups true (7 - hs.length) after with
            | mk ts last' =>
              obtain ⟨quad', rest'⟩ := last'
              rw [htail] at h
              cases h
              obtain ⟨hle', text', hrun', rfl⟩ := isRun_of_front htail
              have hlength : hs.length + ts.length ≤ 7 := by omega
              rw [List.append_nil]
              exact .short hrun hrun' hlength
          · cases h
  · intro h
    cases h with
    | @full quad _ _ h hlength =>
      have hread : readGroups true 8 (cs ++ []) = (gs, quad, []) :=
        readGroups_front h (Nat.le_of_eq hlength) (.inl rfl)
      rw [List.append_nil] at hread
      simp [readV6, hread, hlength]
    | @short quad before after hs ts hbefore hafter hlength =>
      have hhead : readGroups true 8 (before ++ ':' :: ':' :: after)
          = (hs, false, ':' :: ':' :: after) :=
        readGroups_front hbefore (by omega) (.inr ⟨after, rfl⟩)
      have htail : readGroups true (7 - hs.length) (after ++ []) = (ts, quad, []) :=
        readGroups_front hafter (by omega) (.inl rfl)
      rw [List.append_nil] at htail
      have hne : hs.length ≠ 8 := by omega
      simp [readV6, hhead, htail, hne]

/-- A text of eight groups does not begin with a dotted quad. -/
theorem readQuad_of_isGroups (h : IsGroups cs gs) : readQuad cs = none := by
  have hcolon : ∀ after, readQuad (':' :: after) = none := fun after =>
    (pieces_of_closed (by simp [Closed])).1
  -- Such a text begins with a colon, or with a group that a colon follows.
  cases h with
  | full h hlength =>
    cases h with
    | nil => simp at hlength
    | group => simp at hlength
    | quad => simp at hlength
    | cons h _ _ => exact readQuad_group h (by simp [Closed])
  | short hbefore _ _ =>
    cases hbefore with
    | nil => exact hcolon _
    | group h => exact readQuad_group h (by simp [Closed])
    | cons h _ _ =>
      rw [List.append_assoc]
      exact readQuad_group h (by simp [Closed])

/-- The texts of four octets. -/
theorem parse?_v4_iff {os : List Nat} : parse? cs = some (.v4 os) ↔ IsQuad cs os := by
  have hread : readQuad cs = some (os, []) ↔ IsQuad cs os := by
    rw [readQuad_eq_some_iff]
    simp [Ends]
  unfold parse?
  rw [← hread]
  cases readQuad cs with
  | none =>
    simp only [reduceCtorEq, iff_false]
    split <;> simp
  | some read =>
    obtain ⟨os', rest⟩ := read
    cases rest <;> simp

/-- The texts of eight groups. -/
theorem parse?_v6_iff : parse? cs = some (.v6 gs) ↔ IsGroups cs gs := by
  rw [← readV6_eq_some_iff]
  unfold parse?
  constructor
  · intro h
    split at h
    · cases h
    · cases h
    · split at h
      · rename_i hread
        cases h
        exact hread
      · cases h
  · intro h
    rw [readQuad_of_isGroups (readV6_eq_some_iff.mp h), h]

end Backplane.Net.Address
