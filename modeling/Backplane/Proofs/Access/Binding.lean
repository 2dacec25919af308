import Backplane.Proofs.Access.Departure

/-!
# `Backplane.Proofs.Access.Binding`: listeners that enter and leave a client

A listener that is stored as an attribute is told so, and told again when it
leaves, however it leaves: another attribute takes its place, it is removed,
or the client is cleared. A `Story` is a sequence of uses of the attributes of
one client, each with what it told the listeners. A clear tells all attributes
at once, and in which order is left open: a story may have any. The main
statements:

* `setAttribute_eq`: a store, with the leaving of the attribute that it
  replaces.
* `tidy_use`: for each listener and name, every use keeps the two kinds of
  notices in turns, and the last of them says whether the listener is stored.
* `bindings_take_turns`: so it is in every story, and after the first clear no
  attribute is left, no listener is missing a notice, and nothing more happens.

The listener and the name are looked at together, because one listener may
stand under several names. What carries the proof is that the notices of one
pair are a sequence of turns (`Turns`), which a replacement continues by two
of them even where a listener is replaced by itself.
-/

set_option autoImplicit false

namespace Backplane.Access

/-! ### Turns -/

namespace Turns

variable {l : List Bool} {b : Bool}

/-- Whoever is there leaves. -/
theorem leave (h : Turns l b) : Turns (l ++ if b then [false] else []) false := by
  cases b with
  | false => simpa using h
  | true => exact .went h

/-- Somebody comes, or nobody. -/
theorem enter (h : Turns l false) (b : Bool) : Turns (l ++ if b then [true] else []) b := by
  cases b with
  | false => simpa using h
  | true => exact .came h

/-- There is one coming more than goings while somebody is there. -/
theorem count_eq (h : Turns l b) : l.count true = l.count false + b.toNat := by
  induction h with
  | nil => rfl
  | came _ ih => simpa using ih
  | went _ ih => simpa using ih

end Turns

/-! ### Notices of one listener about one name -/

/-- Whether an attribute is this listener. -/
def Attribute.isListener (a : Attribute) (listener : String) : Bool :=
  match a with
  | .value _ => false
  | .listener l => l == listener

theorem Attribute.isListener_iff (a : Attribute) (listener : String) :
    a.isListener listener = true ↔ a = .listener listener := by
  cases a <;> simp [isListener]

/-- Which notices of a listener about a name tell that it has entered. -/
def boundIn (log : List Notice) (listener name : String) : List Bool :=
  (log.filter fun n => n.listener == listener && n.name == name).map Notice.bound

@[simp] theorem boundIn_nil (listener name : String) : boundIn [] listener name = [] := rfl

@[simp] theorem boundIn_append (log more : List Notice) (listener name : String) :
    boundIn (log ++ more) listener name
      = boundIn log listener name ++ boundIn more listener name := by
  simp [boundIn]

/-- The notices that an attribute causes under a name are about that name, and
for the listener that it is. -/
theorem boundIn_notices (a : Attribute) (bound : Bool) (k listener name : String) :
    boundIn (a.notices bound k) listener name
      = if k = name ∧ a.isListener listener then [bound] else [] := by
  cases a with
  | value v => simp [Attribute.notices, Attribute.isListener]
  | listener l =>
    by_cases hl : l = listener <;> by_cases hk : k = name <;>
      simp [Attribute.notices, Attribute.isListener, boundIn, hl, hk]

/-- The notices of one pair, if there is at most one, do not depend on the
order of all notices. -/
theorem boundIn_of_perm {log log' : List Notice} (h : log.Perm log') {listener name : String}
    {b c : Bool} (hlog' : boundIn log' listener name = if b then [c] else []) :
    boundIn log listener name = if b then [c] else [] := by
  have hperm : (boundIn log listener name).Perm (boundIn log' listener name) :=
    (h.filter _).map _
  rw [hlog'] at hperm
  cases b with
  | false => exact hperm.eq_nil
  | true => exact List.perm_singleton.mp hperm

/-! ### What one use does -/

namespace Client

/-- What can be asked of the attributes of a client. -/
inductive Use where
  | set (name : String) (a : Attribute)
  | remove (name : String)
  | get (name : String)
  | clear

/-- The client after a use, and what the use tells. -/
def use (c : Client) : Use → Client × List Notice
  | .set name a => (c.setAttribute name a).2
  | .remove name => (c.removeAttribute name).2
  | .get _ => (c, [])
  | .clear => c.clear

/-- Whether a use can tell `told`: a clear tells in any order. -/
def Tells (c : Client) (u : Use) (told : List Notice) : Prop :=
  match u with
  | .clear => told.Perm c.clear.2
  | u => told = (c.use u).2

/-- Whether a listener is stored under a name. -/
def stores (c : Client) (listener name : String) : Bool :=
  (c.getAttribute? name).any (Attribute.isListener · listener)

theorem stores_iff (c : Client) (listener name : String) :
    c.stores listener name = true ↔ c.getAttribute? name = some (.listener listener) := by
  unfold stores
  cases c.getAttribute? name with
  | none => simp
  | some a => simp [Attribute.isListener_iff]

/-- A client that is not cleared takes every attribute. The one that it had
under the name leaves first. -/
theorem setAttribute_eq {c : Client} (hc : c.cleared = false) (k : String) (a : Attribute) :
    c.setAttribute k a = (true, { c with attributes := c.attributes.insert k a },
      ((c.getAttribute? k).elim [] fun old => old.notices false k) ++ a.notices true k) := by
  unfold setAttribute getAttribute?
  rw [hc, if_neg Bool.false_ne_true]
  cases c.attributes.get? k <;> rfl

/-- A cleared client takes none. -/
theorem setAttribute_of_cleared {c : Client} (hc : c.cleared = true) (k : String) (a : Attribute) :
    c.setAttribute k a = (false, c, []) := by
  unfold setAttribute
  rw [hc, if_pos rfl]

/-- It is cleared once. -/
theorem clear_of_cleared {c : Client} (hc : c.cleared = true) : c.clear = (c, []) := by
  unfold clear
  rw [hc, if_pos rfl]

/-- What a name lets go of, as notices of one pair: the listener that stands
there is told, about that name. -/
theorem boundIn_leaving (c : Client) (k listener name : String) :
    boundIn ((c.getAttribute? k).elim [] fun old => old.notices false k) listener name
      = if k = name then (if c.stores listener name then [false] else []) else [] := by
  by_cases hk : k = name
  · subst hk
    rw [if_pos rfl]
    unfold stores
    cases c.getAttribute? k with
    | none => simp
    | some old => simp [boundIn_notices]
  · rw [if_neg hk]
    cases c.getAttribute? k with
    | none => rfl
    | some old => simp [boundIn_notices, hk]

/-- A clear tells each listener once about each name under which it stands. -/
theorem boundIn_clear {c : Client} (hc : c.cleared = false) (h : c.attributes.Ascending)
    (listener name : String) :
    boundIn c.clear.2 listener name = if c.stores listener name then [false] else [] := by
  unfold clear stores getAttribute? Table.get?
  rw [hc, if_neg Bool.false_ne_true]
  show boundIn (c.attributes.entries.flatMap fun e => e.2.notices false e.1) listener name = _
  replace h : c.attributes.entries.Pairwise fun a b => a.1 < b.1 := h
  generalize c.attributes.entries = entries at h ⊢
  induction entries with
  | nil => rfl
  | cons e rest ih =>
    obtain ⟨hhead, htail⟩ := List.pairwise_cons.mp h
    rw [List.flatMap_cons, boundIn_append, boundIn_notices, ih htail]
    by_cases hk : name = e.1
    · -- No later entry has this name.
      have hrest : Table.find? name rest = none := by
        refine Table.find?_eq_none ?_
        intro e' he' heq
        have hlt := hhead e' he'
        rw [heq, hk] at hlt
        exact lt_irrefl _ hlt
      simp [Table.find?, hk, hk ▸ hrest]
    · simp [Table.find?, hk, Ne.symm hk]

/-- What is kept while attributes come and go: the notices of every listener
about every name take turns, and a cleared client has no attribute. -/
structure Tidy (c : Client) (log : List Notice) : Prop where
  ascending : c.attributes.Ascending
  turns : ∀ listener name, Turns (boundIn log listener name) (c.stores listener name)
  empty : c.cleared = true → c.attributes = ∅

/-- A client that has just logged on has no attribute, and nobody was told
anything. -/
theorem tidy_logon (clientId : String) (session : Option String) (user : User) (rights : Rights)
    (now : Int) : (logon clientId session user rights now).Tidy [] :=
  ⟨Table.ascending_empty, fun _ _ => .nil, fun h => nomatch h⟩

/-- Whether a listener is stored after a store. -/
theorem stores_insert (c : Client) (k : String) (a : Attribute) (listener name : String) :
    stores { c with attributes := c.attributes.insert k a } listener name
      = if k = name then a.isListener listener else c.stores listener name := by
  unfold stores getAttribute?
  rw [Table.get?_insert]
  by_cases hk : k = name
  · rw [if_pos hk.symm, if_pos hk]
    rfl
  · rw [if_neg (Ne.symm hk), if_neg hk]

/-- Whether a listener is stored after a removal. -/
theorem stores_erase (c : Client) (k listener name : String) :
    stores { c with attributes := c.attributes.erase k } listener name
      = if k = name then false else c.stores listener name := by
  unfold stores getAttribute?
  rw [Table.get?_erase]
  by_cases hk : k = name
  · rw [if_pos hk.symm, if_pos hk]
    rfl
  · rw [if_neg (Ne.symm hk), if_neg hk]

variable {c : Client} {log told : List Notice}

theorem tidy_set (h : c.Tidy log) (k : String) (a : Attribute) :
    (c.setAttribute k a).2.1.Tidy (log ++ (c.setAttribute k a).2.2) := by
  cases hc : c.cleared with
  | true =>
    rw [setAttribute_of_cleared hc]
    simpa using h
  | false =>
    rw [setAttribute_eq hc]
    refine ⟨Table.ascending_insert h.ascending k a, ?_, fun hcleared => ?_⟩
    · intro listener name
      rw [stores_insert, boundIn_append, boundIn_append, boundIn_leaving, boundIn_notices]
      by_cases hk : k = name
      · -- The one that stood there leaves, and then the new one enters.
        have hturns := ((h.turns listener name).leave).enter (a.isListener listener)
        simpa [hk] using hturns
      · simpa [hk] using h.turns listener name
    · rw [hc] at hcleared
      cases hcleared

theorem tidy_remove (h : c.Tidy log) (k : String) :
    (c.removeAttribute k).2.1.Tidy (log ++ (c.removeAttribute k).2.2) := by
  unfold removeAttribute
  cases hk : c.attributes.get? k with
  | none => simpa using h
  | some old =>
    have hleaving : (c.getAttribute? k).elim [] (fun old => old.notices false k)
        = old.notices false k := by
      unfold getAttribute?
      rw [hk]
      rfl
    refine ⟨h.ascending.erase k, ?_, fun hcleared => ?_⟩
    · intro listener name
      show Turns (boundIn (log ++ old.notices false k) listener name) _
      rw [stores_erase, boundIn_append, ← hleaving, boundIn_leaving]
      by_cases hname : k = name
      · simpa [hname] using (h.turns listener name).leave
      · simpa [hname] using h.turns listener name
    · -- A cleared client has no attribute to remove.
      rw [h.empty hcleared] at hk
      cases hk

theorem tidy_clear (h : c.Tidy log) (htold : told.Perm c.clear.2) :
    c.clear.1.Tidy (log ++ told) := by
  cases hc : c.cleared with
  | true =>
    rw [clear_of_cleared hc] at htold ⊢
    rw [htold.eq_nil, List.append_nil]
    exact h
  | false =>
    have hempty : c.clear.1.attributes = ∅ := by
      unfold clear
      rw [hc, if_neg Bool.false_ne_true]
    refine ⟨hempty ▸ Table.ascending_empty, ?_, fun _ => hempty⟩
    intro listener name
    have hnone : c.clear.1.stores listener name = false := by
      unfold stores getAttribute?
      rw [hempty]
      rfl
    rw [hnone, boundIn_append, boundIn_of_perm htold (boundIn_clear hc h.ascending listener name)]
    exact (h.turns listener name).leave

/-- Every use keeps the notices in turns. -/
theorem tidy_use (h : c.Tidy log) {u : Use} (htold : c.Tells u told) :
    (c.use u).1.Tidy (log ++ told) := by
  cases u with
  | set k a =>
    rw [show told = (c.setAttribute k a).2.2 from htold]
    exact tidy_set h k a
  | remove k =>
    rw [show told = (c.removeAttribute k).2.2 from htold]
    exact tidy_remove h k
  | get k =>
    rw [show told = [] from htold, List.append_nil]
    exact h
  | clear => exact tidy_clear h htold

/-- A use clears a client if it is a clear, and no client is ever unclear
again. -/
theorem cleared_use (c : Client) (u : Use) :
    (c.use u).1.cleared = true ↔ c.cleared = true ∨ u = .clear := by
  cases u with
  | set k a =>
    show (c.setAttribute k a).2.1.cleared = true ↔ _
    unfold setAttribute
    split <;> simp [*]
  | remove k =>
    show (c.removeAttribute k).2.1.cleared = true ↔ _
    unfold removeAttribute
    split <;> simp
  | get k => simp [use]
  | clear =>
    show c.clear.1.cleared = true ↔ _
    simp [Service.cleared_clear]

/-! ### Stories -/

/-- Uses of a client, each with what it told the listeners. -/
abbrev Story := List (Use × List Notice)

/-- A story that a client can go through. -/
def Plays : Client → Story → Prop
  | _, [] => True
  | c, (u, told) :: rest => c.Tells u told ∧ (c.use u).1.Plays rest

/-- The client after the first `n` uses of a story. -/
def after (c : Client) (story : Story) (n : Nat) : Client :=
  (story.take n).foldl (fun c p => (c.use p.1).1) c

/-- What listeners were told in the first `n` uses of a story, oldest
first. -/
def toldIn (story : Story) (n : Nat) : List Notice := (story.take n).flatMap Prod.snd

variable {story : Story} {n : Nat}

theorem after_succ {u : Use} (hu : story[n]? = some (u, told)) :
    c.after story (n + 1) = ((c.after story n).use u).1 := by
  unfold after
  rw [List.take_add_one, hu, Option.toList_some, List.foldl_append]
  rfl

theorem toldIn_succ {u : Use} (hu : story[n]? = some (u, told)) :
    toldIn story (n + 1) = toldIn story n ++ told := by
  unfold toldIn
  rw [List.take_add_one, hu, Option.toList_some, List.flatMap_append, List.flatMap_singleton]

theorem take_of_end (hn : story[n]? = none) : story.take (n + 1) = story.take n := by
  rw [List.take_add_one, hn, Option.toList_none, List.append_nil]

/-- In a story that a client can go through, every use tells what it can
tell. -/
theorem Plays.tells (h : c.Plays story) {u : Use} (hu : story[n]? = some (u, told)) :
    (c.after story n).Tells u told := by
  induction story generalizing c n with
  | nil => cases hu
  | cons p rest ih =>
    obtain ⟨hfirst, hrest⟩ := h
    cases n with
    | zero =>
      cases hu
      exact hfirst
    | succ n => exact ih hrest hu

/-- The notices are in turns at every moment of a story. -/
theorem tidy_after (h : c.Tidy []) (hplays : c.Plays story) (n : Nat) :
    (c.after story n).Tidy (toldIn story n) := by
  induction n with
  | zero => exact h
  | succ n ih =>
    cases hn : story[n]? with
    | none =>
      unfold after toldIn
      rw [take_of_end hn]
      exact ih
    | some p =>
      rw [after_succ hn, toldIn_succ hn]
      exact tidy_use ih (hplays.tells hn)

/-- Uses clear a client if there is a clear among them. -/
theorem cleared_foldl (story : Story) (c : Client) :
    (story.foldl (fun c p => (c.use p.1).1) c).cleared = true ↔
      c.cleared = true ∨ ∃ told, (Use.clear, told) ∈ story := by
  induction story generalizing c with
  | nil => simp
  | cons p rest ih =>
    obtain ⟨u, told⟩ := p
    rw [List.foldl_cons, ih, cleared_use, or_assoc]
    refine or_congr_right ⟨?_, ?_⟩
    · rintro (rfl | ⟨told', hrest⟩)
      · exact ⟨told, List.mem_cons_self⟩
      · exact ⟨told', List.mem_cons_of_mem _ hrest⟩
    · rintro ⟨told', hmem⟩
      rcases List.mem_cons.mp hmem with heq | hrest
      · cases heq
        exact .inl rfl
      · exact .inr ⟨told', hrest⟩

/-- A client is cleared from its first clear on. -/
theorem cleared_after (hc : c.cleared = false) (story : Story) (n : Nat) :
    (c.after story n).cleared = true ↔ ∃ i < n, ∃ told, story[i]? = some (.clear, told) := by
  unfold after
  rw [cleared_foldl, hc]
  simp only [List.mem_iff_getElem?, List.getElem?_take, Bool.false_eq_true, false_or]
  constructor
  · rintro ⟨told, i, hi⟩
    split at hi
    · rename_i hlt
      exact ⟨i, hlt, told, hi⟩
    · cases hi
  · rintro ⟨i, hlt, told, hi⟩
    exact ⟨told, i, by rw [if_pos hlt, hi]⟩

/-- In every story of a client that has logged on, and for every listener and
every name: the notices of the listener about the name take turns, entering
first, and the last one tells of an entering if and only if the listener is
stored under the name now. A store into a client that has not been cleared
succeeds and tells the attribute that it replaces before the one that it
stores. After the first clear no attribute is left, every entering has been
followed by a leaving, no attribute is taken, and a further clear does
nothing. -/
theorem bindings_take_turns (clientId : String) (session : Option String) (user : User)
    (rights : Rights) (now : Int) (story : Story)
    (hplays : (logon clientId session user rights now).Plays story) :
    let c := logon clientId session user rights now
    (∀ n listener name,
      (∀ i b, (boundIn (toldIn story n) listener name)[i]? = some b →
        (b = true ↔ i % 2 = 0)) ∧
      ((boundIn (toldIn story n) listener name).getLast? = some true ↔
        (c.after story n).getAttribute? name = some (.listener listener))) ∧
    (∀ i name a told, story[i]? = some (.set name a, told) →
      (∀ j < i, ∀ told', story[j]? ≠ some (.clear, told')) →
      ((c.after story i).setAttribute name a).1 = true ∧
        told = ((c.after story i).getAttribute? name).elim [] (Attribute.notices · false name)
          ++ a.notices true name) ∧
    (∀ i told n, story[i]? = some (.clear, told) → i < n →
      (c.after story n).attributes = ∅ ∧
      (∀ listener name, (boundIn (toldIn story n) listener name).count true
        = (boundIn (toldIn story n) listener name).count false) ∧
      (∀ name a, (c.after story n).setAttribute name a = (false, c.after story n, [])) ∧
      (c.after story n).clear = (c.after story n, [])) := by
  intro c
  have htidy := fun n => tidy_after (tidy_logon clientId session user rights now) hplays n
  have hcleared := cleared_after (c := c) rfl story
  refine ⟨fun n listener name => ⟨fun i b hb => ?_, ?_⟩, ?_, ?_⟩
  · rw [((htidy n).turns listener name).getElem?_eq hb, decide_eq_true_eq]
  · rw [((htidy n).turns listener name).getLast?_eq, stores_iff]
  · intro i name a told hset hfirst
    have hnot : (c.after story i).cleared = false := by
      rw [Bool.eq_false_iff, ne_eq, hcleared]
      rintro ⟨j, hj, told', hclear⟩
      exact hfirst j hj told' hclear
    have htold : told = ((c.after story i).setAttribute name a).2.2 := hplays.tells hset
    rw [setAttribute_eq hnot] at htold ⊢
    exact ⟨rfl, htold⟩
  · intro i told n hclear hi
    have hc := (hcleared n).mpr ⟨i, hi, told, hclear⟩
    have hempty := (htidy n).empty hc
    refine ⟨hempty, fun listener name => ?_, fun name a => setAttribute_of_cleared hc name a,
      clear_of_cleared hc⟩
    have hnone : (c.after story n).stores listener name = false := by
      unfold stores getAttribute?
      rw [hempty]
      rfl
    have hcount := ((htidy n).turns listener name).count_eq
    rw [hnone] at hcount
    exact hcount

/-- A listener is replaced by itself, a second name gets another one, and the
clear tells them in another order than that of their names. -/
def cartStory : Story :=
  [(.set "cart" (.listener "a"), [⟨true, "a", "cart"⟩]),
   (.set "cart" (.listener "a"), [⟨false, "a", "cart"⟩, ⟨true, "a", "cart"⟩]),
   (.set "note" (.listener "b"), [⟨true, "b", "note"⟩]),
   (.set "lang" (.value (.string "it")), []),
   (.clear, [⟨false, "b", "note"⟩, ⟨false, "a", "cart"⟩]),
   (.set "late" (.listener "a"), []),
   (.clear, [])]

theorem bindings_take_turns_cart :
    let c := logon "c1" none { id := 7, name := "mario" } {} 0
    c.Plays cartStory ∧ boundIn (toldIn cartStory 4) "a" "cart" = [true, false, true] ∧
      (c.after cartStory 4).getAttribute? "cart" = some (.listener "a") ∧
      (c.after cartStory 7).attributes = ∅ := by
  intro c
  have hplays : c.Plays cartStory :=
    ⟨rfl, rfl, rfl, rfl, List.Perm.swap _ _ _, rfl, List.Perm.refl _, trivial⟩
  obtain ⟨hturns, _, hclear⟩ :=
    bindings_take_turns "c1" none { id := 7, name := "mario" } {} 0 cartStory hplays
  exact ⟨hplays, rfl, (hturns 4 "a" "cart").2.mp rfl, (hclear 4 _ 7 rfl (by decide)).1⟩

end Client

end Backplane.Access
