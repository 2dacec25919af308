/-!
# `Backplane.Text.Blank`: white space and trimming

White space is the Unicode property `White_Space`. The main statements:

* `trimStart_append`: trimming the front drops blanks and nothing else.
* `trimEnd_eq`: trimming the end is trimming the front of the reversal.
* `trimChars_eq`: what neither begins nor ends with a blank stays.
-/

set_option autoImplicit false

namespace Backplane.Text

/-- The characters with the Unicode property `White_Space`. -/
def isBlank (c : Char) : Bool :=
  let n := c.toNat
  (9 ≤ n && n ≤ 13) || n == 0x20 || n == 0x85 || n == 0xA0 || n == 0x1680
    || (0x2000 ≤ n && n ≤ 0x200A) || n == 0x2028 || n == 0x2029 || n == 0x202F
    || n == 0x205F || n == 0x3000

/-- The ASCII blanks are blank. -/
theorem isBlank_of_isWhitespace (c : Char) (h : c.isWhitespace = true) : isBlank c = true := by
  simp only [Char.isWhitespace, Bool.or_eq_true, decide_eq_true_eq] at h
  rcases h with ((rfl | rfl) | rfl) | rfl <;> decide

/-- Drops the blanks in front. -/
def trimStart (cs : List Char) : List Char := cs.dropWhile isBlank

/-- Drops the blanks at the end. -/
def trimEnd (cs : List Char) : List Char := (cs.reverse.dropWhile isBlank).reverse

/-- Drops the blanks at both ends. -/
def trimChars (cs : List Char) : List Char := trimEnd (trimStart cs)

theorem trimStart_append (cs : List Char) : cs.takeWhile isBlank ++ trimStart cs = cs :=
  List.takeWhile_append_dropWhile

/-- Blanks in front are dropped up to the first other character. -/
theorem trimStart_eq {pre cs : List Char} (hpre : ∀ c ∈ pre, isBlank c = true)
    (hcs : ∀ c ∈ cs.head?, isBlank c = false) : trimStart (pre ++ cs) = cs := by
  rw [trimStart, List.dropWhile_append_of_pos hpre]
  cases cs with
  | nil => rfl
  | cons c cs => rw [List.dropWhile_cons, hcs c rfl, if_neg (by decide)]

theorem trimEnd_eq (cs : List Char) : (trimEnd cs).reverse = trimStart cs.reverse := by
  simp [trimEnd, trimStart]

/-- Blanks around a text that neither begins nor ends with one are all
that is dropped. -/
theorem trimChars_eq {pre cs post : List Char} (hpre : ∀ c ∈ pre, isBlank c = true)
    (hhead : ∀ c ∈ cs.head?, isBlank c = false) (hlast : ∀ c ∈ cs.getLast?, isBlank c = false)
    (hpost : ∀ c ∈ post, isBlank c = true) : trimChars (pre ++ cs ++ post) = cs := by
  have hreverse : trimStart (post.reverse ++ cs.reverse) = cs.reverse :=
    trimStart_eq (fun c hc => hpost c (List.mem_reverse.mp hc))
      (fun c hc => hlast c (by rwa [List.head?_reverse] at hc))
  cases cs with
  | nil =>
    -- nothing but blanks: the front takes them all
    have hblank : ∀ c ∈ pre ++ post, isBlank c = true := fun c hc =>
      (List.mem_append.mp hc).elim (hpre c) (hpost c)
    have hnil : trimStart (pre ++ post ++ []) = [] :=
      trimStart_eq hblank (fun c hc => absurd hc (by simp))
    rw [List.append_nil] at hnil ⊢
    rw [trimChars, hnil]
    rfl
  | cons c cs =>
    have hfront : trimStart (pre ++ (c :: cs ++ post)) = c :: cs ++ post :=
      trimStart_eq hpre hhead
    rw [trimChars, List.append_assoc, hfront, ← List.reverse_inj, trimEnd_eq, List.reverse_append,
      hreverse]

end Backplane.Text
