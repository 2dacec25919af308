import Backplane.Proofs.Json.Tree

/-!
# `Backplane.Proofs.Json.Layout`: how tokens are laid out

A text lays out some tokens if it is made of their texts, with any blanks
between them: `Lays`. Nothing is said there of brackets or commas, so a layout
is cut in front of any token, and what it lays out may be anything. If these
are the tokens of a tree, the text is a text of the tree, by one induction over
the tree. The main statements:

* `Lays.split`, `Lays.split_mark`: a text is cut where its tokens are.
* `isText_of_lays`: a text of the tokens of a tree is a text of the tree.
-/

set_option autoImplicit false

namespace Backplane.Json

open Token (marks)
open Backplane.Json.Tree (itemTokens memberTokens)

/-- The text of a token. -/
inductive IsLexeme : List Char → Token → Prop where
  | mark {c : Char} {t : Token} (h : (c, t) ∈ marks) : IsLexeme [c] t
  | null : IsLexeme ['n', 'u', 'l', 'l'] .null
  | true : IsLexeme ['t', 'r', 'u', 'e'] (.bool Bool.true)
  | false : IsLexeme ['f', 'a', 'l', 's', 'e'] (.bool Bool.false)
  | number {cs : List Char} {n : Number} (h : IsNumber cs n) : IsLexeme cs (.number n)
  | string {cs : List Char} {s : Option String} (h : IsString cs s) : IsLexeme cs (.string s)

/-- The texts of some tokens, with blanks between them. -/
inductive Lays : List Char → List Token → Prop where
  | nil : Lays [] []
  | blank {c : Char} {cs : List Char} {ts : List Token} (hc : c ∈ [' ', '\n', '\r', '\t'])
      (h : Lays cs ts) : Lays (c :: cs) ts
  | token {lexeme cs : List Char} {t : Token} {ts : List Token} (ht : IsLexeme lexeme t)
      (h : Lays cs ts) : Lays (lexeme ++ cs) (t :: ts)

theorem Lays.areBlanks {cs : List Char} (h : Lays cs []) : AreBlanks cs := by
  generalize hts : ([] : List Token) = ts at h
  induction h with
  | nil => exact areBlanks_nil
  | blank hc _ ih => exact List.forall_mem_cons.mpr ⟨hc, ih hts⟩
  | token => cases hts

theorem lays_of_blanks {cs : List Char} (h : AreBlanks cs) : Lays cs [] := by
  induction cs with
  | nil => exact .nil
  | cons c cs ih =>
    obtain ⟨hc, hcs⟩ := List.forall_mem_cons.mp h
    exact .blank hc (ih hcs)

theorem Lays.append {cs ds : List Char} {ts us : List Token} (h : Lays cs ts) (h' : Lays ds us) :
    Lays (cs ++ ds) (ts ++ us) := by
  induction h with
  | nil => exact h'
  | blank hc _ ih => exact .blank hc ih
  | token ht _ ih =>
    rw [List.append_assoc]
    exact .token ht ih

/-- The text of some tokens is cut in front of any of them. -/
theorem Lays.split {cs : List Char} {ts us : List Token} (h : Lays cs (ts ++ us)) :
    ∃ as bs, cs = as ++ bs ∧ Lays as ts ∧ Lays bs us := by
  generalize hall : ts ++ us = all at h
  induction h generalizing ts with
  | nil =>
    obtain ⟨rfl, rfl⟩ := List.append_eq_nil_iff.mp hall
    exact ⟨[], [], rfl, .nil, .nil⟩
  | @blank c cs _ hc _ ih =>
    obtain ⟨as, bs, rfl, has, hbs⟩ := ih hall
    exact ⟨c :: as, bs, rfl, .blank hc has, hbs⟩
  | @token lexeme cs t all ht hcs ih =>
    cases ts with
    | nil =>
      subst hall
      exact ⟨[], lexeme ++ cs, rfl, .nil, .token ht hcs⟩
    | cons t' ts =>
      obtain ⟨rfl, htail⟩ := List.cons.inj hall
      obtain ⟨as, bs, rfl, has, hbs⟩ := ih htail
      exact ⟨lexeme ++ as, bs, (List.append_assoc ..).symm, .token ht has, hbs⟩

/-- The first token has its text in front, behind some blanks. -/
theorem Lays.exists_lexeme {cs : List Char} {t : Token} {ts : List Token} (h : Lays cs (t :: ts)) :
    ∃ before lexeme rest, cs = before ++ (lexeme ++ rest) ∧ AreBlanks before ∧
      IsLexeme lexeme t ∧ Lays rest ts := by
  generalize hall : t :: ts = all at h
  induction h with
  | nil => cases hall
  | @blank c cs _ hc _ ih =>
    obtain ⟨before, lexeme, rest, rfl, hbefore, hrest⟩ := ih hall
    exact ⟨c :: before, lexeme, rest, rfl, List.forall_mem_cons.mpr ⟨hc, hbefore⟩, hrest⟩
  | @token lexeme cs t' ts' ht hcs _ =>
    obtain ⟨rfl, rfl⟩ := List.cons.inj hall
    exact ⟨[], lexeme, cs, rfl, areBlanks_nil, ht, hcs⟩

/-- A mark has no other text. -/
theorem IsLexeme.eq_of_mark {lexeme : List Char} {c : Char} {t : Token} (hc : (c, t) ∈ marks)
    (h : IsLexeme lexeme t) : lexeme = [c] := by
  have hinj : ∀ p ∈ marks, ∀ q ∈ marks, p.2 = q.2 → p.1 = q.1 := by decide
  have hother : ∀ p ∈ marks, p.2 ≠ .null ∧ (∀ b, p.2 ≠ .bool b) ∧ (∀ n, p.2 ≠ .number n) ∧
      ∀ s, p.2 ≠ .string s := by simp [marks]
  obtain ⟨hnull, hbool, hnumber, hstring⟩ := hother _ hc
  cases h with
  | mark h => exact congrArg (fun c => [c]) (hinj _ h _ hc rfl)
  | null => exact absurd rfl hnull
  | true | false => exact absurd rfl (hbool _)
  | number => exact absurd rfl (hnumber _)
  | string => exact absurd rfl (hstring _)

/-- A mark that comes first stands behind some blanks. -/
theorem Lays.exists_mark {cs : List Char} {ts : List Token} {t : Token} {c : Char}
    (hc : (c, t) ∈ marks) (h : Lays cs (t :: ts)) :
    ∃ before rest, cs = before ++ c :: rest ∧ AreBlanks before ∧ Lays rest ts := by
  obtain ⟨before, lexeme, rest, rfl, hbefore, hlexeme, hrest⟩ := h.exists_lexeme
  obtain rfl := hlexeme.eq_of_mark hc
  exact ⟨before, rest, rfl, hbefore, hrest⟩

/-- The text of some tokens is cut at a mark. -/
theorem Lays.split_mark {cs : List Char} {ts us : List Token} {t : Token} {c : Char}
    (hc : (c, t) ∈ marks) (h : Lays cs (ts ++ t :: us)) :
    ∃ as bs, cs = as ++ c :: bs ∧ Lays as ts ∧ Lays bs us := by
  obtain ⟨as, bs, rfl, has, hbs⟩ := h.split
  obtain ⟨before, rest, rfl, hbefore, hrest⟩ := hbs.exists_mark hc
  refine ⟨as ++ before, rest, (List.append_assoc ..).symm, ?_, hrest⟩
  have hfront := has.append (lays_of_blanks hbefore)
  rwa [List.append_nil] at hfront

/-- What stands between two marks. -/
theorem Lays.bracketed {cs : List Char} {ts : List Token} {c d : Char} {t u : Token}
    (hc : (c, t) ∈ marks) (hd : (d, u) ∈ marks) (h : Lays cs (t :: (ts ++ [u]))) :
    ∃ before inner after, cs = before ++ (c :: (inner ++ [d]) ++ after) ∧ AreBlanks before ∧
      AreBlanks after ∧ Lays inner ts := by
  obtain ⟨before, rest, rfl, hbefore, hrest⟩ := h.exists_mark hc
  obtain ⟨inner, after, rfl, hinner, hafter⟩ := hrest.split_mark hd
  exact ⟨before, inner, after, by simp, hbefore, hafter.areBlanks, hinner⟩

/-- A single token that is a value. -/
theorem Lays.isText {cs : List Char} {t : Token} {v : Tree} (h : Lays cs [t])
    (hv : ∀ lexeme, IsLexeme lexeme t → IsValue lexeme v) : IsText cs v := by
  obtain ⟨before, lexeme, rest, rfl, hbefore, hlexeme, hrest⟩ := h.exists_lexeme
  exact .mk hbefore (hv lexeme hlexeme) hrest.areBlanks

/-- A name, a colon and a value are a member. -/
theorem Lays.isMember {cs : List Char} {name : Option String} {t : Tree}
    (h : Lays cs (.string name :: .colon :: t.tokens))
    (ht : ∀ cs, Lays cs t.tokens → IsText cs t) : IsMember cs (name, t) := by
  obtain ⟨before, lexeme, rest, rfl, hbefore, hlexeme, hrest⟩ := h.exists_lexeme
  obtain ⟨after, cs, rfl, hafter, hcs⟩ :=
    hrest.exists_mark (by decide : (':', Token.colon) ∈ marks)
  cases hlexeme with
  | mark h => simp [marks] at h
  | string hname => exact .mk hbefore hname hafter (ht cs hcs)

mutual

/-- A text of the tokens of a tree is a text of the tree. -/
theorem isText_of_lays : ∀ (t : Tree) (cs : List Char), Lays cs t.tokens → IsText cs t
  | .null, _, h => h.isText fun _ hlexeme => by
    cases hlexeme with
    | mark h => simp [marks] at h
    | null => exact .null
  | .bool _, _, h => h.isText fun _ hlexeme => by
    cases hlexeme with
    | mark h => simp [marks] at h
    | true => exact .true
    | false => exact .false
  | .number _, _, h => h.isText fun _ hlexeme => by
    cases hlexeme with
    | mark h => simp [marks] at h
    | number h => exact .number h
  | .string _, _, h => h.isText fun _ hlexeme => by
    cases hlexeme with
    | mark h => simp [marks] at h
    | string h => exact .string h
  | .array items, _, h => by
    obtain ⟨before, inner, after, rfl, hbefore, hafter, hinner⟩ := h.bracketed
      (by decide : ('[', Token.beginArray) ∈ marks) (by decide : (']', Token.endArray) ∈ marks)
    by_cases hitems : items = []
    · subst hitems
      exact .mk hbefore (.emptyArray hinner.areBlanks) hafter
    · exact .mk hbefore (.array (areItems_of_lays items inner hinner hitems)) hafter
  | .object members, _, h => by
    obtain ⟨before, inner, after, rfl, hbefore, hafter, hinner⟩ := h.bracketed
      (by decide : ('\x7b', Token.beginObject) ∈ marks)
      (by decide : ('\x7d', Token.endObject) ∈ marks)
    by_cases hmembers : members = []
    · subst hmembers
      exact .mk hbefore (.emptyObject hinner.areBlanks) hafter
    · exact .mk hbefore (.object (areMembers_of_lays members inner hinner hmembers)) hafter

/-- A text of the tokens of items is a text of the items. -/
theorem areItems_of_lays : ∀ (items : List Tree) (cs : List Char), Lays cs (itemTokens items) →
    items ≠ [] → AreItems cs items
  | [], _, _, hne => absurd rfl hne
  | [t], _, h, _ => .single (isText_of_lays t _ h)
  | t :: u :: rest, _, h, _ => by
    obtain ⟨as, bs, rfl, has, hbs⟩ := h.split_mark (by decide : (',', Token.comma) ∈ marks)
    exact .cons (isText_of_lays t as has) (areItems_of_lays (u :: rest) bs hbs (by simp))

/-- A text of the tokens of members is a text of the members. -/
theorem areMembers_of_lays : ∀ (members : List (Option String × Tree)) (cs : List Char),
    Lays cs (memberTokens members) → members ≠ [] → AreMembers cs members
  | [], _, _, hne => absurd rfl hne
  | [(_, t)], _, h, _ => .single (h.isMember (isText_of_lays t))
  | (name, t) :: m :: rest, cs, h, _ => by
    have hcut : Lays cs ((.string name :: .colon :: t.tokens) ++ .comma :: memberTokens (m :: rest)) :=
      h
    obtain ⟨as, bs, rfl, has, hbs⟩ := hcut.split_mark (by decide : (',', Token.comma) ∈ marks)
    exact .cons (has.isMember (isText_of_lays t)) (areMembers_of_lays (m :: rest) bs hbs (by simp))

end

end Backplane.Json
