import Backplane.Json.Printer
import Backplane.Json.Tree
import Backplane.Proofs.Text.Numeral

/-!
# `Backplane.Proofs.Json.Grammar`: the texts of JSON values

What a JSON text is, and what it says, without any reader: one inductive
predicate for each kind of phrase and one constructor for each production. A
text may have blanks around every token, any character of a string may be
written by an escape, and an object may repeat a member. A string whose escapes
have a surrogate without its partner is a string, but it spells no text.

Printing is one way to write a text. The main statement:

* `isText_chars`: the compact text of a value is a text of the value's tree,
  provided that its numbers are written by their literals.
-/

set_option autoImplicit false

namespace Backplane.Json

/-! ### Tokens -/

/-- Blanks, which may stand around any token. -/
def AreBlanks (cs : List Char) : Prop := ∀ c ∈ cs, c ∈ [' ', '\n', '\r', '\t']

theorem areBlanks_nil : AreBlanks [] := fun _ hc => absurd hc List.not_mem_nil

/-- The letters that may follow a backslash, with the characters that they stand
for. -/
def shortEscapes : List (Char × Char) :=
  [('"', '"'), ('\\', '\\'), ('/', '/'), ('b', '\x08'), ('f', '\x0c'), ('n', '\n'), ('r', '\r'),
    ('t', '\t')]

/-- Four hexadecimal digits in either case, and the number that they write. -/
inductive IsUnit : List Char → Nat → Prop where
  | mk {a b c d : Char} {w x y z : Nat} (ha : Text.Hex.digit? a = some w)
      (hb : Text.Hex.digit? b = some x) (hc : Text.Hex.digit? c = some y)
      (hd : Text.Hex.digit? d = some z) :
      IsUnit [a, b, c, d] (((w * 16 + x) * 16 + y) * 16 + z)

/-- A character that needs no escape in a string. -/
structure IsPlain (c : Char) : Prop where
  le : 32 ≤ c.toNat
  ne_quote : c ≠ '"'
  ne_backslash : c ≠ '\\'

/-- What may stand between the quotes of a string. -/
inductive IsBody : List Char → Prop where
  | nil : IsBody []
  | plain {c : Char} {rest : List Char} (h : IsPlain c) (hrest : IsBody rest) :
      IsBody (c :: rest)
  | short {e c : Char} {rest : List Char} (h : (e, c) ∈ shortEscapes) (hrest : IsBody rest) :
      IsBody ('\\' :: e :: rest)
  | unit {digits rest : List Char} {n : Nat} (h : IsUnit digits n) (hrest : IsBody rest) :
      IsBody ('\\' :: 'u' :: (digits ++ rest))

/-- What stands between the quotes of a string spells a text. A character beyond
four hexadecimal digits is written by a high surrogate and a low one. -/
inductive IsSpelling : List Char → List Char → Prop where
  | nil : IsSpelling [] []
  | plain {c : Char} {rest cs : List Char} (h : IsPlain c) (hrest : IsSpelling rest cs) :
      IsSpelling (c :: rest) (c :: cs)
  | short {e c : Char} {rest cs : List Char} (h : (e, c) ∈ shortEscapes)
      (hrest : IsSpelling rest cs) : IsSpelling ('\\' :: e :: rest) (c :: cs)
  | unit {digits rest cs : List Char} {c : Char} (h : IsUnit digits c.toNat)
      (hrest : IsSpelling rest cs) : IsSpelling ('\\' :: 'u' :: (digits ++ rest)) (c :: cs)
  | pair {high low rest cs : List Char} {m n : Nat} {c : Char} (hhigh : IsUnit high m)
      (hlow : IsUnit low n) (hm : 0xD800 ≤ m ∧ m < 0xDC00) (hn : 0xDC00 ≤ n ∧ n < 0xE000)
      (hc : c.toNat = 0x10000 + (m - 0xD800) * 0x400 + (n - 0xDC00))
      (hrest : IsSpelling rest cs) :
      IsSpelling ('\\' :: 'u' :: (high ++ '\\' :: 'u' :: (low ++ rest))) (c :: cs)

/-- A string with its quotes, and the text that it spells, if it spells any. -/
inductive IsString : List Char → Option String → Prop where
  | text {body cs : List Char} (h : IsSpelling body cs) :
      IsString ('"' :: (body ++ ['"'])) (some (String.ofList cs))
  | garbled {body : List Char} (h : IsBody body) (hno : ∀ cs, ¬ IsSpelling body cs) :
      IsString ('"' :: (body ++ ['"'])) none

/-- The fraction of a number, or nothing. -/
inductive IsFraction : List Char → Prop where
  | none : IsFraction []
  | some {ds : List Char} {n : Nat} (h : Text.IsDigits ds n) : IsFraction ('.' :: ds)

/-- The exponent of a number, or nothing. -/
inductive IsExponent : List Char → Prop where
  | none : IsExponent []
  | some {e : Char} {sign ds : List Char} {n : Nat} (he : e = 'e' ∨ e = 'E')
      (hsign : sign = [] ∨ sign = ['+'] ∨ sign = ['-']) (h : Text.IsDigits ds n) :
      IsExponent (e :: (sign ++ ds))

/-- A number, without leading zeros. It is an integer if it has neither fraction
nor exponent, unless it is a negative zero. -/
inductive IsNumber : List Char → Number → Prop where
  | natural (n : Nat) : IsNumber (Nat.toDigits 10 n) (.integer n)
  | negative {n : Nat} (h : 0 < n) : IsNumber ('-' :: Nat.toDigits 10 n) (.integer (-n))
  | negativeZero : IsNumber ['-', '0'] (.decimal "-0")
  | decimal {sign fraction exponent : List Char} (n : Nat) (hsign : sign = [] ∨ sign = ['-'])
      (hfraction : IsFraction fraction) (hexponent : IsExponent exponent)
      (hne : fraction ≠ [] ∨ exponent ≠ []) :
      IsNumber (sign ++ (Nat.toDigits 10 n ++ (fraction ++ exponent)))
        (.decimal (String.ofList (sign ++ (Nat.toDigits 10 n ++ (fraction ++ exponent)))))

/-! ### Values -/

mutual

/-- A value without the blanks around it. -/
inductive IsValue : List Char → Tree → Prop where
  | null : IsValue ['n', 'u', 'l', 'l'] .null
  | true : IsValue ['t', 'r', 'u', 'e'] (.bool Bool.true)
  | false : IsValue ['f', 'a', 'l', 's', 'e'] (.bool Bool.false)
  | number {cs : List Char} {n : Number} (h : IsNumber cs n) : IsValue cs (.number n)
  | string {cs : List Char} {s : Option String} (h : IsString cs s) : IsValue cs (.string s)
  | emptyArray {blanks : List Char} (h : AreBlanks blanks) :
      IsValue ('[' :: (blanks ++ [']'])) (.array [])
  | array {cs : List Char} {ts : List Tree} (h : AreItems cs ts) :
      IsValue ('[' :: (cs ++ [']'])) (.array ts)
  | emptyObject {blanks : List Char} (h : AreBlanks blanks) :
      IsValue ('\x7b' :: (blanks ++ ['\x7d'])) (.object [])
  | object {cs : List Char} {ms : List (Option String × Tree)} (h : AreMembers cs ms) :
      IsValue ('\x7b' :: (cs ++ ['\x7d'])) (.object ms)

/-- A value with blanks around it: a whole text, an item, or what stands behind
the name of a member. -/
inductive IsText : List Char → Tree → Prop where
  | mk {before cs after : List Char} {t : Tree} (hbefore : AreBlanks before) (h : IsValue cs t)
      (hafter : AreBlanks after) : IsText (before ++ (cs ++ after)) t

/-- Items with commas between them. -/
inductive AreItems : List Char → List Tree → Prop where
  | single {cs : List Char} {t : Tree} (h : IsText cs t) : AreItems cs [t]
  | cons {cs ds : List Char} {t : Tree} {ts : List Tree} (h : IsText cs t)
      (hrest : AreItems ds ts) : AreItems (cs ++ ',' :: ds) (t :: ts)

/-- A member: a name and a value with a colon between them. -/
inductive IsMember : List Char → Option String × Tree → Prop where
  | mk {before name after cs : List Char} {s : Option String} {t : Tree}
      (hbefore : AreBlanks before) (hname : IsString name s) (hafter : AreBlanks after)
      (h : IsText cs t) : IsMember (before ++ (name ++ (after ++ ':' :: cs))) (s, t)

/-- Members with commas between them. -/
inductive AreMembers : List Char → List (Option String × Tree) → Prop where
  | single {cs : List Char} {m : Option String × Tree} (h : IsMember cs m) : AreMembers cs [m]
  | cons {cs ds : List Char} {m : Option String × Tree} {ms : List (Option String × Tree)}
      (h : IsMember cs m) (hrest : AreMembers ds ms) : AreMembers (cs ++ ',' :: ds) (m :: ms)

end

/-- A value is a text, with no blanks around it. -/
theorem IsValue.isText {cs : List Char} {t : Tree} (h : IsValue cs t) : IsText cs t := by
  have htext := IsText.mk areBlanks_nil h areBlanks_nil
  rwa [List.nil_append, List.append_nil] at htext

theorem IsString.isMember {name cs : List Char} {s : Option String} {t : Tree}
    (hname : IsString name s) (h : IsText cs t) : IsMember (name ++ ':' :: cs) (s, t) :=
  IsMember.mk areBlanks_nil hname areBlanks_nil h

/-! ### Printed values -/

mutual

/-- The tree of a value. -/
def toTree : Json → Tree
  | .null => .null
  | .bool b => .bool b
  | .number n => .number n
  | .string s => .string (some s)
  | .array items => .array (itemTrees items)
  | .object members => .object (memberTrees members)

/-- The trees of items. -/
def itemTrees : List Json → List Tree
  | [] => []
  | v :: rest => toTree v :: itemTrees rest

/-- The trees of members. -/
def memberTrees : List (String × Json) → List (Option String × Tree)
  | [] => []
  | (name, v) :: rest => (some name, toTree v) :: memberTrees rest

end

mutual

/-- Whether the numbers of a value are written by their literals. -/
def Literal : Json → Prop
  | .number n => IsNumber n.chars n
  | .array items => ItemsLiteral items
  | .object members => MembersLiteral members
  | _ => True

/-- Whether the numbers of all items are written by their literals. -/
def ItemsLiteral : List Json → Prop
  | [] => True
  | v :: rest => Literal v ∧ ItemsLiteral rest

/-- Whether the numbers of all members are written by their literals. -/
def MembersLiteral : List (String × Json) → Prop
  | [] => True
  | (_, v) :: rest => Literal v ∧ MembersLiteral rest

end

/-- An integer is written by its literal. -/
theorem isNumber_integer (n : Int) : IsNumber (Number.integer n).chars (.integer n) := by
  show IsNumber (toString n).toList _
  rw [Text.toList_toString_int]
  split
  · have hn : n = n.natAbs := by omega
    have hnatural := IsNumber.natural n.natAbs
    rwa [← hn] at hnatural
  · have hn : n = -n.natAbs := by omega
    have hnegative := IsNumber.negative (n := n.natAbs) (by omega)
    rwa [← hn] at hnegative

/-- A control character is printed as its number. -/
theorem isUnit_control {n : Nat} (h : n < 32) :
    IsUnit ['0', '0', Text.Hex.digitChar (n / 16), Text.Hex.digitChar (n % 16)] n := by
  have hzero : Text.Hex.digit? '0' = some 0 := by decide
  have hunit := IsUnit.mk hzero hzero (Text.Hex.digit?_digitChar (n / 16) (by omega))
    (Text.Hex.digit?_digitChar (n % 16) (by omega))
  rwa [show ((0 * 16 + 0) * 16 + n / 16) * 16 + n % 16 = n by omega] at hunit

/-- A character is printed so that it is spelled. -/
theorem IsSpelling.escape_append {rest cs : List Char} (h : IsSpelling rest cs) (c : Char) :
    IsSpelling (escape c ++ rest) (c :: cs) := by
  have hsame : ∀ c d : Char, c.toNat = d.toNat → c = d := fun _ _ hd => Char.toNat_inj.mp hd
  fun_cases escape c with
  | case1 | case2 | case3 | case4 | case5 => exact .short (by decide) h
  | case6 c _ _ _ _ _ n hn =>
    rw [hsame c '\x08' hn]
    exact .short (by decide) h
  | case7 c _ _ _ _ _ n _ hn =>
    rw [hsame c '\x0c' hn]
    exact .short (by decide) h
  | case8 c _ _ _ _ _ n _ _ hn => exact .unit (isUnit_control hn) h
  | case9 c hq hbs _ _ _ n _ _ hn => exact .plain ⟨Nat.le_of_not_lt hn, hq, hbs⟩ h

/-- A text is printed so that it is spelled. -/
theorem isSpelling_escape (cs : List Char) : IsSpelling (cs.flatMap escape) cs := by
  induction cs with
  | nil => exact .nil
  | cons c cs ih => exact ih.escape_append c

/-- A printed string is a string. -/
theorem isString_quote (s : String) : IsString (quote s.toList) (some s) := by
  have htext := IsString.text (isSpelling_escape s.toList)
  rwa [String.ofList_toList] at htext

mutual

/-- A printed value is a value. -/
theorem isValue_chars : ∀ v : Json, Literal v → IsValue v.chars v.toTree
  | .null, _ => .null
  | .bool Bool.true, _ => .true
  | .bool Bool.false, _ => .false
  | .number n, h => by
    rw [Literal] at h
    exact .number h
  | .string s, _ => .string (isString_quote s)
  | .array [], _ => .emptyArray areBlanks_nil
  | .array (v :: rest), h => by
    rw [Literal] at h
    exact .array (areItems_chars (v :: rest) h (List.cons_ne_nil v rest))
  | .object [], _ => .emptyObject areBlanks_nil
  | .object (m :: rest), h => by
    rw [Literal] at h
    exact .object (areMembers_chars (m :: rest) h (List.cons_ne_nil m rest))

/-- Printed items are items. -/
theorem areItems_chars : ∀ items : List Json, ItemsLiteral items → items ≠ [] →
    AreItems (itemChars items) (itemTrees items)
  | [], _, hne => absurd rfl hne
  | [v], h, _ => by
    rw [ItemsLiteral] at h
    exact .single (isValue_chars v h.1).isText
  | v :: w :: rest, h, _ => by
    rw [ItemsLiteral] at h
    exact .cons (isValue_chars v h.1).isText
      (areItems_chars (w :: rest) h.2 (List.cons_ne_nil w rest))

/-- Printed members are members. -/
theorem areMembers_chars : ∀ members : List (String × Json), MembersLiteral members →
    members ≠ [] → AreMembers (memberChars members) (memberTrees members)
  | [], _, hne => absurd rfl hne
  | [(name, v)], h, _ => by
    rw [MembersLiteral] at h
    exact .single ((isString_quote name).isMember (isValue_chars v h.1).isText)
  | (name, v) :: m :: rest, h, _ => by
    rw [MembersLiteral] at h
    have hmember := (isString_quote name).isMember (isValue_chars v h.1).isText
    have hmembers := AreMembers.cons hmember
      (areMembers_chars (m :: rest) h.2 (List.cons_ne_nil m rest))
    rwa [List.append_assoc] at hmembers

end

/-- The compact text of a value is a text of its tree. -/
theorem isText_chars {v : Json} (h : v.Literal) : IsText v.chars v.toTree :=
  (isValue_chars v h).isText

end Backplane.Json
