import Backplane.Proofs.Json.Token

/-!
# `Backplane.Proofs.Json.Tree`: reading the texts of the grammar

A text, its tokens and the tree that the machine builds from them: the text of
a tree is read as the tokens of the tree (`reads_isText`), by one induction over
the productions of the grammar, and these tokens take the machine from an
awaited value to the finished tree (`run_tokens`), with any stack below, by one
induction over the tree. No other tokens do, because each state of the machine
tells which tokens have led to it (`tokens_next`). The main statements:

* `ofTokens?_eq_some_iff`: a tree is built from its own tokens only.
* `ofString?_of_isText`: a text of the grammar is read as its tree.
* `isText_render`: the compact text of a value is one of the texts of its tree,
  provided that its numbers are written by their literals.
-/

set_option autoImplicit false

namespace Backplane.Json

open Text (utf8Bytes)

/-! ### The tokens of a tree -/

mutual

/-- The tokens of the texts of a tree. -/
def Tree.tokens : Tree → List Token
  | .null => [.null]
  | .bool b => [.bool b]
  | .number n => [.number n]
  | .string s => [.string s]
  | .array items => .beginArray :: (itemTokens items ++ [.endArray])
  | .object members => .beginObject :: (memberTokens members ++ [.endObject])

/-- The tokens of items, with commas between them. -/
def Tree.itemTokens : List Tree → List Token
  | [] => []
  | [t] => tokens t
  | t :: rest => tokens t ++ .comma :: itemTokens rest

/-- The tokens of members, with commas between them. -/
def Tree.memberTokens : List (Option String × Tree) → List Token
  | [] => []
  | [(name, t)] => .string name :: .colon :: tokens t
  | (name, t) :: rest => .string name :: .colon :: (tokens t ++ .comma :: memberTokens rest)

end

open Backplane.Json.Tree (itemTokens memberTokens)

/-- Items have a comma behind the first one, if there are more. -/
theorem itemTokens_cons (t : Tree) {rest : List Tree} (h : rest ≠ []) :
    itemTokens (t :: rest) = t.tokens ++ .comma :: itemTokens rest := by
  rw [itemTokens]
  exact h

/-- Members have a comma behind the first one, if there are more. -/
theorem memberTokens_cons (name : Option String) (t : Tree) {rest : List (Option String × Tree)}
    (h : rest ≠ []) :
    memberTokens ((name, t) :: rest)
      = .string name :: .colon :: (t.tokens ++ .comma :: memberTokens rest) := by
  rw [memberTokens]
  exact h

theorem AreItems.ne_nil {cs : List Char} {ts : List Tree} (h : AreItems cs ts) : ts ≠ [] := by
  cases h <;> simp

theorem AreMembers.ne_nil {cs : List Char} {ms : List (Option String × Tree)}
    (h : AreMembers cs ms) : ms ≠ [] := by
  cases h <;> simp

open Token (Reads marks)

/-- What stands between two marks. -/
theorem reads_bracketed {c d : Char} {t u : Token} (hc : (c, t) ∈ marks) (hd : (d, u) ∈ marks)
    {cs : List Char} {ts : List Token} (h : Reads (utf8Bytes cs) ts) :
    Reads (utf8Bytes (c :: (cs ++ [d]))) (t :: (ts ++ [u])) := by
  have hinner := h.append_mark hd (Token.reads_of_blanks areBlanks_nil)
  rw [Text.utf8Bytes_cons, Text.utf8Bytes_append]
  exact hinner.mark_append hc

mutual

/-- A value is read as the tokens of its tree. -/
theorem reads_isValue : ∀ {cs : List Char} {t : Tree}, IsValue cs t →
    Reads (utf8Bytes cs) t.tokens
  | _, _, .null => Token.reads_null
  | _, _, .true => Token.reads_true
  | _, _, .false => Token.reads_false
  | _, _, .number h => Token.reads_number h
  | _, _, .string h => Token.reads_string h
  | _, _, .emptyArray h =>
    reads_bracketed (t := .beginArray) (u := .endArray) (by decide) (by decide)
      (Token.reads_of_blanks h)
  | _, _, .array h => by
    rw [Tree.tokens]
    exact reads_bracketed (by decide) (by decide) (reads_areItems h)
  | _, _, .emptyObject h =>
    reads_bracketed (t := .beginObject) (u := .endObject) (by decide) (by decide)
      (Token.reads_of_blanks h)
  | _, _, .object h => by
    rw [Tree.tokens]
    exact reads_bracketed (by decide) (by decide) (reads_areMembers h)

/-- A text is read as the tokens of its tree. -/
theorem reads_isText : ∀ {cs : List Char} {t : Tree}, IsText cs t →
    Reads (utf8Bytes cs) t.tokens
  | _, _, .mk hbefore h hafter => (reads_isValue h).within_blanks hbefore hafter

/-- Items are read as their tokens. -/
theorem reads_areItems : ∀ {cs : List Char} {ts : List Tree}, AreItems cs ts →
    Reads (utf8Bytes cs) (itemTokens ts)
  | _, _, .single h => reads_isText h
  | _, _, .cons h hrest => by
    rw [itemTokens_cons _ hrest.ne_nil, Text.utf8Bytes_append, Text.utf8Bytes_cons]
    exact (reads_isText h).append_mark (by decide) (reads_areItems hrest)

/-- A member is read as its name, a colon and the tokens of its value. -/
theorem reads_isMember : ∀ {cs : List Char} {m : Option String × Tree}, IsMember cs m →
    Reads (utf8Bytes cs) (.string m.1 :: .colon :: m.2.tokens)
  | _, _, .mk hbefore hname hafter h => by
    have hname := (Token.reads_string hname).within_blanks hbefore hafter
    have hmember := hname.append_mark (c := ':') (t := .colon) (by decide) (reads_isText h)
    rw [← Text.utf8Bytes_cons, ← Text.utf8Bytes_append] at hmember
    simpa only [List.append_assoc, List.singleton_append] using hmember

/-- Members are read as their tokens. -/
theorem reads_areMembers : ∀ {cs : List Char} {ms : List (Option String × Tree)},
    AreMembers cs ms → Reads (utf8Bytes cs) (memberTokens ms)
  | _, _, .single h => reads_isMember h
  | _, _, .cons h hrest => by
    rw [memberTokens_cons _ _ hrest.ne_nil, Text.utf8Bytes_append, Text.utf8Bytes_cons]
    exact (reads_isMember h).append_mark (by decide) (reads_areMembers hrest)

end

/-! ### The tree of the tokens -/

open Backplane.Json.Tree (State Frame)

/-- The states that await a value on top of a stack. An array that has
just begun is such a state, only that it may end as well. -/
inductive AwaitsValue : State → List Frame → Prop
  | value (stack : List Frame) : AwaitsValue (.value stack) stack
  | openArray (stack : List Frame) : AwaitsValue (.openArray stack) (.array [] :: stack)

/-- The states that await a member behind some others. -/
inductive AwaitsMember : State → List (Option String × Tree) → List Frame → Prop
  | member (members : List (Option String × Tree)) (stack : List Frame) :
    AwaitsMember (.member members stack) members stack
  | openObject (stack : List Frame) : AwaitsMember (.openObject stack) [] stack

/-- A value begins with its first token. -/
theorem AwaitsValue.next {s : State} {stack : List Frame} (h : AwaitsValue s stack) {t : Token}
    (ht : t ≠ .endArray) : s.next t = State.start stack t := by
  cases h with
  | value => rfl
  | openArray => cases t <;> first | rfl | exact absurd rfl ht

/-- A member begins with its name. -/
theorem AwaitsMember.next {s : State} {members : List (Option String × Tree)}
    {stack : List Frame} (h : AwaitsMember s members stack) (name : Option String) :
    s.next (.string name) = some (.colon members name stack) := by
  cases h <;> rfl

/-- A single token can be a whole value. -/
theorem AwaitsValue.run_single {s : State} {stack : List Frame} (h : AwaitsValue s stack)
    {t : Token} {v : Tree} (hv : State.start stack t = some (.complete v stack)) :
    [t].foldlM State.next s = some (.complete v stack) := by
  have ht : t ≠ .endArray := by
    rintro rfl
    exact absurd hv (by simp [State.start])
  rw [List.foldlM_cons, h.next ht, hv]
  rfl

mutual

/-- The tokens of a tree take the machine to the tree. -/
theorem run_tokens : ∀ (t : Tree) (s : State) (stack : List Frame), AwaitsValue s stack →
    t.tokens.foldlM State.next s = some (.complete t stack)
  | .null, _, _, hs => hs.run_single rfl
  | .bool _, _, _, hs => hs.run_single rfl
  | .number _, _, _, hs => hs.run_single rfl
  | .string _, _, _, hs => hs.run_single rfl
  | .array [], s, stack, hs => by
    show [Token.beginArray, .endArray].foldlM State.next s = _
    rw [List.foldlM_cons, hs.next (by simp)]
    rfl
  | .array (t :: rest), s, stack, hs => by
    rw [Tree.tokens, List.foldlM_cons, hs.next (by simp)]
    exact run_itemTokens (t :: rest) _ [] stack (.openArray stack) (by simp)
  | .object [], s, stack, hs => by
    show [Token.beginObject, .endObject].foldlM State.next s = _
    rw [List.foldlM_cons, hs.next (by simp)]
    rfl
  | .object (m :: rest), s, stack, hs => by
    rw [Tree.tokens, List.foldlM_cons, hs.next (by simp)]
    exact run_memberTokens (m :: rest) _ [] stack (.openObject stack) (by simp)

/-- The tokens of items and the end of the array take the machine to the
array of what was read before and of the items. -/
theorem run_itemTokens : ∀ (items : List Tree) (s : State) (read : List Tree)
    (stack : List Frame), AwaitsValue s (.array read :: stack) → items ≠ [] →
    (itemTokens items ++ [Token.endArray]).foldlM State.next s
      = some (.complete (.array (read.reverse ++ items)) stack)
  | [], _, _, _, _, h => absurd rfl h
  | [t], s, read, stack, hs, _ => by
    rw [itemTokens, List.foldlM_append, run_tokens t s _ hs]
    show some (State.complete (.array (t :: read).reverse) stack) = _
    rw [List.reverse_cons]
  | t :: u :: rest, s, read, stack, hs, _ => by
    have hrest := run_itemTokens (u :: rest) (.value (.array (t :: read) :: stack))
      (t :: read) stack (.value _) (by simp)
    rw [itemTokens_cons t (List.cons_ne_nil u rest), List.append_assoc, List.foldlM_append,
      run_tokens t s _ hs]
    show (itemTokens (u :: rest) ++ [Token.endArray]).foldlM State.next
      (.value (.array (t :: read) :: stack)) = _
    rw [hrest, List.reverse_cons, List.append_assoc]
    rfl

/-- The tokens of members and the end of the object take the machine to
the object of what was read before and of the members. -/
theorem run_memberTokens : ∀ (members : List (Option String × Tree)) (s : State)
    (read : List (Option String × Tree)) (stack : List Frame), AwaitsMember s read stack →
    members ≠ [] →
    (memberTokens members ++ [Token.endObject]).foldlM State.next s
      = some (.complete (.object (read.reverse ++ members)) stack)
  | [], _, _, _, _, h => absurd rfl h
  | [(name, t)], s, read, stack, hs, _ => by
    have ht := run_tokens t (.value (.object read name :: stack)) _ (.value _)
    rw [memberTokens, List.cons_append, List.foldlM_cons, hs.next]
    show (t.tokens ++ [Token.endObject]).foldlM State.next
      (.value (.object read name :: stack)) = _
    rw [List.foldlM_append, ht]
    show some (State.complete (.object ((name, t) :: read).reverse) stack) = _
    rw [List.reverse_cons]
  | (name, t) :: m :: rest, s, read, stack, hs, _ => by
    have ht := run_tokens t (.value (.object read name :: stack)) _ (.value _)
    have hrest := run_memberTokens (m :: rest) (.member ((name, t) :: read) stack)
      ((name, t) :: read) stack (.member _ _) (by simp)
    rw [memberTokens_cons name t (List.cons_ne_nil m rest), List.cons_append, List.foldlM_cons,
      hs.next]
    show ((t.tokens ++ .comma :: memberTokens (m :: rest)) ++ [Token.endObject]).foldlM
      State.next (.value (.object read name :: stack)) = _
    rw [List.append_assoc, List.foldlM_append, ht]
    show (memberTokens (m :: rest) ++ [Token.endObject]).foldlM State.next
      (.member ((name, t) :: read) stack) = _
    rw [hrest, List.reverse_cons, List.append_assoc]
    rfl

end

/-! ### The tokens that the machine has taken -/

/-- The tokens of items with a comma behind each. -/
def Tree.pastItems (items : List Tree) : List Token := items.flatMap fun t => t.tokens ++ [.comma]

/-- The tokens of members with a comma behind each. -/
def Tree.pastMembers (members : List (Option String × Tree)) : List Token :=
  members.flatMap fun m => .string m.1 :: .colon :: (m.2.tokens ++ [.comma])

open Backplane.Json.Tree (pastItems pastMembers)

theorem itemTokens_append_single (items : List Tree) (t : Tree) :
    itemTokens (items ++ [t]) = pastItems items ++ t.tokens := by
  induction items with
  | nil => rfl
  | cons u rest ih =>
    rw [List.cons_append, itemTokens_cons u (by simp), ih]
    simp [pastItems]

theorem memberTokens_append_single (members : List (Option String × Tree)) (name : Option String)
    (t : Tree) : memberTokens (members ++ [(name, t)])
      = pastMembers members ++ .string name :: .colon :: t.tokens := by
  induction members with
  | nil => rfl
  | cons m rest ih =>
    rw [List.cons_append, memberTokens_cons m.1 m.2 (by simp), ih]
    simp [pastMembers]

/-- The tokens of what is read of a value around the one that is being read. -/
def Tree.Frame.tokens : Frame → List Token
  | .array items => .beginArray :: pastItems items.reverse
  | .object members name => .beginObject :: (pastMembers members.reverse ++ [.string name, .colon])

/-- The tokens that a stack has taken. The innermost value stands first. -/
def Tree.stackTokens : List Frame → List Token
  | [] => []
  | f :: stack => stackTokens stack ++ f.tokens

open Backplane.Json.Tree (stackTokens)

/-- The tokens that have led to a state. -/
def Tree.State.tokens : State → List Token
  | .value stack => stackTokens stack
  | .openArray stack => stackTokens stack ++ [.beginArray]
  | .openObject stack => stackTokens stack ++ [.beginObject]
  | .member members stack => stackTokens stack ++ .beginObject :: pastMembers members.reverse
  | .colon members name stack =>
    stackTokens stack ++ .beginObject :: (pastMembers members.reverse ++ [.string name])
  | .complete v stack => stackTokens stack ++ v.tokens

/-- A value begins with a token that it keeps. -/
theorem tokens_start {stack : List Frame} {t : Token} {s : State} (h : State.start stack t = some s) :
    s.tokens = stackTokens stack ++ [t] := by
  unfold State.start at h
  split at h <;> first | (cases h; rfl) | cases h

/-- No state forgets a token or makes one up. -/
theorem tokens_next {s s' : State} {t : Token} (h : s.next t = some s') :
    s'.tokens = s.tokens ++ [t] := by
  unfold State.next at h
  split at h
  case h_1 => exact tokens_start h
  case h_3 =>
    rw [tokens_start h]
    simp [State.tokens, stackTokens, Frame.tokens, pastItems]
  case h_12 => cases h
  all_goals cases h
  case h_2 | h_4 => simp [State.tokens, Tree.tokens, itemTokens, memberTokens]
  case h_5 | h_6 => simp [State.tokens, pastMembers]
  case h_7 => simp [State.tokens, stackTokens, Frame.tokens]
  case h_8 => simp [State.tokens, stackTokens, Frame.tokens, pastItems]
  case h_9 => simp [State.tokens, stackTokens, Frame.tokens, Tree.tokens, itemTokens_append_single]
  case h_10 => simp [State.tokens, stackTokens, Frame.tokens, pastMembers]
  case h_11 =>
    simp [State.tokens, stackTokens, Frame.tokens, Tree.tokens, memberTokens_append_single]

theorem tokens_run {ts : List Token} {s s' : State} (h : ts.foldlM State.next s = some s') :
    s'.tokens = s.tokens ++ ts := by
  induction ts generalizing s with
  | nil =>
    cases h
    rw [List.append_nil]
  | cons t ts ih =>
    rw [List.foldlM_cons] at h
    obtain ⟨s₁, hnext, hrest⟩ := Option.bind_eq_some_iff.mp h
    rw [ih hrest, tokens_next hnext, List.append_assoc]
    rfl

/-- A tree is built from its own tokens only. -/
theorem ofTokens?_eq_some_iff {ts : List Token} {t : Tree} :
    Tree.ofTokens? ts = some t ↔ ts = t.tokens := by
  rw [Tree.ofTokens?_eq_some]
  constructor
  · exact fun h => (tokens_run h).symm
  · rintro rfl
    exact run_tokens t _ _ (.value [])

/-! ### Texts -/

/-- The bytes of a text are read as the tree of the text. -/
theorem ofBytes?_of_isText {cs : List Char} {t : Tree} (h : IsText cs t) :
    Tree.ofBytes? (utf8Bytes cs) = some t := by
  rw [Tree.ofBytes?, (reads_isText h).scan?, Option.bind_some]
  exact ofTokens?_eq_some_iff.mpr rfl

/-- A text is read as its tree. -/
theorem ofString?_of_isText {text : String} {t : Tree} (h : IsText text.toList t) :
    Tree.ofString? text = some t := by
  rw [Tree.ofString?, ← String.ofList_toList (s := text), Text.toUTF8_ofList,
    ofBytes?_of_isText h]

/-- The compact text of a value is a text of its tree. -/
theorem isText_render {v : Json} (h : v.Literal) : IsText v.render.toList v.toTree := by
  rw [render, String.toList_ofList]
  exact isText_chars h

end Backplane.Json
