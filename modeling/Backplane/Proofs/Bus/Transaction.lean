import Backplane.Node.Basic
import Backplane.Proofs.Bus.Dispatch

/-!
# `Backplane.Proofs.Bus.Transaction`: the same listeners within a transaction

A dispatch within a transaction calls its own listeners, which act on the
connection of the transaction, and the first failure ends it. But for that it is
a plain dispatch: if the same listeners are registered for both and answer the
same, both call the same of them, up to the first code other than zero, and
return this code. If one of these fails, the transaction ends there, with its
failure, and the plain dispatch goes on as after a zero. The main statements:

* `sendWithin_eq`: how a node dispatches within a transaction.
* `dispatch_plain`, `dispatchWithin_eq`: both dispatches to listeners that answer
  always the same.
* `dispatchWithin_agrees`: what both have in common, after any use of the bus,
  and how the first failure parts them.

The calls of both are a beginning of the same list, each up to a listener of a
certain kind (`upTo`), and the proof compares these beginnings.
-/

set_option autoImplicit false

namespace Backplane

namespace Bus

variable {L T W C α γ : Type}

/-- Dispatches a message to the listeners within transactions. -/
def dispatchWithin (call : T → Message L → Hosted L T W → Reply × Hosted L T W) (m : Message L)
    (s : Hosted L T W) : Reply × Hosted L T W :=
  callTransactional (fun l => call l m) s.bus.transactional.values s

/-! ### Beginnings of lists -/

/-- The elements up to the first that passes a test, which is the last one; all
elements if none does. -/
def upTo (p : α → Bool) : List α → List α
  | [] => []
  | a :: rest => if p a then [a] else a :: upTo p rest

variable {p q : α → Bool} {l : List α}

theorem upTo_cons_stop {a : α} (h : p a = true) (rest : List α) : upTo p (a :: rest) = [a] :=
  if_pos h

theorem upTo_cons_next {a : α} (h : p a = false) (rest : List α) :
    upTo p (a :: rest) = a :: upTo p rest := by
  rw [upTo, h, if_neg Bool.false_ne_true]

theorem upTo_prefix (p : α → Bool) (l : List α) : upTo p l <+: l := by
  induction l with
  | nil => exact List.prefix_rfl
  | cons a rest ih =>
    cases h : p a with
    | true =>
      rw [upTo_cons_stop h]
      exact List.cons_prefix_cons.mpr ⟨rfl, List.nil_prefix⟩
    | false =>
      rw [upTo_cons_next h]
      exact List.cons_prefix_cons.mpr ⟨rfl, ih⟩

theorem upTo_map (f : γ → α) (l : List γ) :
    upTo p (l.map f) = (upTo (fun c => p (f c)) l).map f := by
  induction l with
  | nil => rfl
  | cons c rest ih =>
    rw [List.map_cons, upTo, upTo, ih]
    split <;> rfl

/-- Tests that agree on the beginning make the same beginning. -/
theorem upTo_congr (h : ∀ a ∈ upTo p l, p a = q a) : upTo q l = upTo p l := by
  induction l with
  | nil => rfl
  | cons a rest ih =>
    cases hp : p a with
    | true =>
      rw [upTo_cons_stop hp] at h ⊢
      have hq := h a List.mem_cons_self
      exact upTo_cons_stop (hq.symm.trans hp) rest
    | false =>
      rw [upTo_cons_next hp] at h ⊢
      have hq := h a List.mem_cons_self
      rw [upTo_cons_next (hq.symm.trans hp), ih fun b hb => h b (List.mem_cons_of_mem a hb)]

/-- What stands before another element of the beginning does not pass. -/
theorem eq_false_of_upTo {before after : List α} {a : α} (h : upTo p l = before ++ a :: after) :
    ∀ b ∈ before, p b = false := by
  induction l generalizing before with
  | nil => cases before <;> cases h
  | cons a' rest ih =>
    cases before with
    | nil =>
      intro b hb
      cases hb
    | cons b before =>
      cases hp : p a' with
      | true =>
        -- Only one element is left then.
        rw [upTo_cons_stop hp] at h
        cases before <;> cases h
      | false =>
        rw [upTo_cons_next hp] at h
        obtain ⟨rfl, hrest⟩ := List.cons.inj h
        intro b hb
        rcases List.mem_cons.mp hb with rfl | hb
        · exact hp
        · exact ih hrest b hb

theorem upTo_append {before : List α} {a : α} (hbefore : ∀ b ∈ before, p b = false)
    (ha : p a = true) (rest : List α) : upTo p (before ++ a :: rest) = before ++ [a] := by
  induction before with
  | nil => exact upTo_cons_stop ha rest
  | cons b before ih =>
    rw [List.cons_append, upTo_cons_next (hbefore b List.mem_cons_self),
      ih fun b' hb' => hbefore b' (List.mem_cons_of_mem b hb')]
    rfl

theorem upTo_eq_self (h : ∀ a ∈ l, p a = false) : upTo p l = l := by
  induction l with
  | nil => rfl
  | cons a rest ih =>
    rw [upTo_cons_next (h a List.mem_cons_self), ih fun b hb => h b (List.mem_cons_of_mem a hb)]

theorem upTo_cases (p : α → Bool) (l : List α) :
    upTo p l = l ∧ (∀ a ∈ l, p a = false) ∨
      ∃ before a, upTo p l = before ++ [a] ∧ p a = true ∧ ∀ b ∈ before, p b = false := by
  induction l with
  | nil => exact .inl ⟨rfl, by simp⟩
  | cons a rest ih =>
    cases h : p a with
    | true => exact .inr ⟨[], a, upTo_cons_stop h rest, h, by simp⟩
    | false =>
      rw [upTo_cons_next h]
      rcases ih with ⟨hall, hnone⟩ | ⟨before, b, hupTo, hb, hbefore⟩
      · exact .inl ⟨by rw [hall], List.forall_mem_cons.mpr ⟨h, hnone⟩⟩
      · exact .inr ⟨a :: before, b, by rw [hupTo]; rfl, hb, List.forall_mem_cons.mpr ⟨h, hbefore⟩⟩

/-! ### Listeners that answer always the same -/

/-- Listeners whose replies do not depend on the state call up to the first
whose reply stops the calls. -/
theorem callUntil_of_replies {σ : Type} {call : L → σ → Reply × σ} {reply : L → Reply}
    (hreply : ∀ l s, (call l s).1 = reply l) (stops : Reply → Bool) (ls : List L) (s : σ) :
    let called := upTo (fun l => stops (reply l)) ls
    callUntil stops call ls s =
      (called.map fun l => (l, reply l), called.foldl (fun s l => (call l s).2) s) := by
  intro called
  induction ls generalizing s with
  | nil => rfl
  | cons l rest ih =>
    have hfst := hreply l s
    cases h : stops (reply l) with
    | true =>
      have hcalled : called = [l] := upTo_cons_stop (p := fun l => stops (reply l)) h rest
      rw [callUntil_cons_stop rest (by rw [hfst, h]), hcalled, hfst]
      rfl
    | false =>
      have hcalled : called = l :: upTo (fun l => stops (reply l)) rest :=
        upTo_cons_next (p := fun l => stops (reply l)) h rest
      rw [callUntil_cons_next rest (by rw [hfst, h]), hcalled, hfst, ih]
      rfl

/-- What listeners answer, and what they do to the connection of a
transaction. -/
structure Behavior (L C : Type) where
  outcome : L → Except Error Int
  effect : L → C → C

namespace Behavior

variable (β : Behavior L C)

/-- The reply of a listener. It does not panic. -/
def reply (l : L) : Reply :=
  match β.outcome l with
  | .ok n => .code n
  | .error e => .failure e

/-- A call of a listener. -/
def visit (l : L) : Visit L := (l, β.reply l)

/-- The listeners of a plain dispatch: the connection is none of their
business. -/
def plain : Caller L T C := fun l _ s => (β.reply l, s)

/-- The listeners of a dispatch within a transaction. -/
def within : Caller L T C := fun l _ s => (β.reply l, { s with host := β.effect l s.host })

/-- The calls of listeners that are given with their names. -/
def visits (es : List (String × L)) : List (Visit L) := es.map fun e => β.visit e.2

/-- What these calls do to the connection, one after the other. -/
def effects (es : List (String × L)) (c : C) : C := es.foldl (fun c e => β.effect e.2 c) c

/-- The listeners with another one in the place of `l`, which answers zero. -/
def corrected [DecidableEq L] (l : L) : Behavior L C :=
  { β with outcome := Function.update β.outcome l (.ok 0) }

variable {β}

theorem reply_vetoes {l : L} : (β.reply l).vetoes = true ↔ ∃ n, n ≠ 0 ∧ β.outcome l = .ok n := by
  unfold reply
  cases β.outcome l <;> simp [Reply.vetoes, Reply.countedAs]

theorem reply_passes {l : L} :
    (β.reply l).vetoes = false ↔ ∀ n, β.outcome l = .ok n → n = 0 := by
  unfold reply
  cases β.outcome l <;> simp [Reply.vetoes, Reply.countedAs]

theorem reply_of_ok {l : L} {n : Int} (h : β.outcome l = .ok n) : β.reply l = .code n := by
  rw [reply, h]

theorem reply_of_error {l : L} {e : Error} (h : β.outcome l = .error e) :
    β.reply l = .failure e := by
  rw [reply, h]

/-- To answer zero is to count as zero, so a listener that fails may as well do
this. -/
theorem countedAs_corrected [DecidableEq L] {l : L} {e : Error} (h : β.outcome l = .error e)
    (k : L) : ((β.corrected l).reply k).countedAs = (β.reply k).countedAs := by
  by_cases hk : k = l
  · subst hk
    have hzero : (β.corrected k).outcome k = .ok 0 := Function.update_self _ _ _
    rw [reply_of_ok hzero, reply_of_error h]
    rfl
  · have hsame : (β.corrected l).outcome k = β.outcome k := Function.update_of_ne hk _ _
    rw [reply, hsame]
    rfl

/-- The listeners that a plain dispatch calls, with their names. -/
def called (β : Behavior L C) (b : Bus L T) : List (String × L) :=
  upTo (fun e => (β.reply e.2).vetoes) b.listeners.entries

/-- The listeners that a dispatch within a transaction calls, with their
names. -/
def calledWithin (β : Behavior L C) (b : Bus T L) : List (String × L) :=
  upTo (fun e => (β.reply e.2).aborts) b.transactional.entries

theorem callUntil_plain (β : Behavior L C) (m : Message L) (stops : Reply → Bool) (ls : List L)
    (s : Hosted L T C) :
    callUntil stops (fun l => β.plain l m) ls s =
      ((upTo (fun l => stops (β.reply l)) ls).map β.visit, s) := by
  have hreply : ∀ l (s : Hosted L T C), (β.plain l m s).1 = β.reply l := fun _ _ => rfl
  refine (callUntil_of_replies hreply stops ls s).trans (Prod.ext rfl ?_)
  -- No call changes the state.
  generalize upTo (fun l => stops (β.reply l)) ls = called
  induction called with
  | nil => rfl
  | cons l rest ih => exact ih

theorem callUntil_within (β : Behavior L C) (m : Message L) (stops : Reply → Bool) (ls : List L)
    (s : Hosted L T C) :
    callUntil stops (fun l => β.within l m) ls s =
      ((upTo (fun l => stops (β.reply l)) ls).map β.visit,
        ⟨s.bus, (upTo (fun l => stops (β.reply l)) ls).foldl (fun c l => β.effect l c) s.host⟩)
    := by
  have hreply : ∀ l (s : Hosted L T C), (β.within l m s).1 = β.reply l := fun _ _ => rfl
  refine (callUntil_of_replies hreply stops ls s).trans (Prod.ext rfl ?_)
  generalize upTo (fun l => stops (β.reply l)) ls = called
  -- The calls leave the bus alone, and each does its part to the connection.
  show called.foldl (fun s l => (β.within l m s).2) s
    = ⟨s.bus, called.foldl (fun c l => β.effect l c) s.host⟩
  induction called generalizing s with
  | nil => rfl
  | cons l rest ih => exact ih _

/-- A plain dispatch leaves the connection alone. -/
theorem dispatch_plain (β : Behavior L C) (b : Bus L T) (m : Message L) (c : C) :
    dispatch (logged β.plain) m ⟨b, c, []⟩ =
      (.ok (lastReply (β.visits (β.called b))).countedAs,
        ⟨b, c, β.visits (β.called b) ++ m.context.postActions.map β.visit⟩) := by
  have hlisteners : callListeners β.plain m ⟨b, c⟩ =
      (β.visits (β.called b), (⟨b, c⟩ : Hosted L T C)) := by
    refine (callUntil_plain β m _ _ _).trans (Prod.ext ?_ rfl)
    show (upTo (fun l => (β.reply l).vetoes) (b.listeners.entries.map Prod.snd)).map β.visit = _
    rw [upTo_map, List.map_map]
    rfl
  have hposts : callPosts β.plain m ⟨b, c⟩ =
      (m.context.postActions.map β.visit, (⟨b, c⟩ : Hosted L T C)) := by
    have hcalm : ∀ l ∈ m.context.postActions, (β.reply l).panic?.isSome = false := by
      intro l _
      unfold reply
      cases β.outcome l <;> rfl
    rw [callPosts, hlisteners, callUntil_plain, upTo_eq_self hcalm]
  have hnone : (lastReply (m.context.postActions.map β.visit)).panic? = none := by
    refine read_lastReply_of_forall Reply.panic? ?_
    intro v hv
    obtain ⟨l, _, rfl⟩ := List.mem_map.mp hv
    unfold visit reply
    cases β.outcome l <;> rfl
  have hlog := dispatch_logged β.plain m (⟨b, c⟩ : Hosted L T C) []
  have hdispatch := dispatch_eq β.plain m (⟨b, c⟩ : Hosted L T C)
  rw [hposts, hlisteners] at hlog hdispatch
  simp only [hnone] at hdispatch
  rw [hdispatch] at hlog
  exact hlog

/-- A dispatch within a transaction. -/
theorem dispatchWithin_eq (β : Behavior L C) (b : Bus L L) (m : Message L) (c : C) :
    dispatchWithin (logged β.within) m ⟨b, c, []⟩ =
      (lastReply (β.visits (β.calledWithin b)),
        ⟨b, β.effects (β.calledWithin b) c, β.visits (β.calledWithin b)⟩) := by
  have hcalls := callUntil_logged Reply.aborts β.within m b.transactional.values
    (⟨b, c⟩ : Hosted L L C) []
  have hcalled : upTo (fun l => (β.reply l).aborts) b.transactional.values =
      (β.calledWithin b).map Prod.snd := upTo_map _ _
  rw [callUntil_within, hcalled, List.map_map, List.foldl_map] at hcalls
  rw [dispatchWithin, callTransactional_eq]
  exact congrArg (fun calls => (lastReply calls.1, calls.2)) hcalls

/-- The code of a plain dispatch is that of the first listener with a code other
than zero, which is the last that is called. -/
theorem called_cases (β : Behavior L C) (b : Bus L T) :
    let code := (lastReply (β.visits (β.called b))).countedAs
    code = 0 ∧ β.called b = b.listeners.entries ∧
        (∀ e ∈ β.called b, ∀ n, β.outcome e.2 = .ok n → n = 0) ∨
      code ≠ 0 ∧ ∃ before e, β.called b = before ++ [e] ∧ β.outcome e.2 = .ok code ∧
        ∀ e' ∈ before, ∀ n, β.outcome e'.2 = .ok n → n = 0 := by
  intro code
  rcases upTo_cases (fun e => (β.reply e.2).vetoes) b.listeners.entries with
    ⟨hall, hnone⟩ | ⟨before, e, hcalled, hveto, hbefore⟩
  · replace hall : β.called b = b.listeners.entries := hall
    refine .inl ⟨read_lastReply_of_forall Reply.countedAs ?_, hall, ?_⟩
    · rw [hall]
      intro v hv
      obtain ⟨e, he, rfl⟩ := List.mem_map.mp hv
      exact Reply.vetoes_eq_false.mp (hnone e he)
    · rw [hall]
      intro e he
      exact reply_passes.mp (hnone e he)
  · replace hcalled : β.called b = before ++ [e] := hcalled
    obtain ⟨n, hn, hok⟩ := reply_vetoes.mp hveto
    have hcode : code = n := by
      show (lastReply (β.visits (β.called b))).countedAs = n
      rw [hcalled, visits, List.map_append, List.map_singleton, lastReply_concat, visit,
        reply_of_ok hok]
      rfl
    rw [hcode]
    exact .inr ⟨hn, before, e, hcalled, hok, fun e' he' => reply_passes.mp (hbefore e' he')⟩

/-- As long as listeners do not fail, both dispatches make the same calls. -/
theorem calledWithin_of_ok (β : Behavior L C) {b : Bus L L} (hsame : b.transactional = b.listeners)
    (hok : ∀ e ∈ β.called b, ∃ n, β.outcome e.2 = .ok n) : β.calledWithin b = β.called b := by
  unfold calledWithin
  rw [hsame]
  refine upTo_congr fun e he => ?_
  obtain ⟨n, hn⟩ := hok e he
  rw [reply_of_ok hn, Bool.eq_iff_iff]
  simp [Reply.vetoes, Reply.aborts, Reply.countedAs]

/-- The first that fails is the last that is called within a transaction. -/
theorem calledWithin_of_error (β : Behavior L C) {b : Bus L L}
    (hsame : b.transactional = b.listeners) {before after : List (String × L)} {e : String × L}
    (hcalled : β.called b = before ++ e :: after)
    (hok : ∀ e' ∈ before, ∃ n, β.outcome e'.2 = .ok n) {err : Error}
    (herr : β.outcome e.2 = .error err) : β.calledWithin b = before ++ [e] := by
  obtain ⟨rest, hrest⟩ := upTo_prefix (fun e => (β.reply e.2).vetoes) b.listeners.entries
  have hlisted : b.listeners.entries = before ++ e :: (after ++ rest) := by
    rw [← hrest, show upTo _ b.listeners.entries = before ++ e :: after from hcalled]
    simp
  unfold calledWithin
  rw [hsame, hlisted]
  refine upTo_append (fun e' he' => ?_) ?_ _
  · -- A listener in front of another one has answered zero.
    obtain ⟨n, hn⟩ := hok e' he'
    have hzero := reply_passes.mp (eq_false_of_upTo hcalled e' he') n hn
    rw [reply_of_ok hn, hzero]
    rfl
  · rw [reply_of_error herr]
    rfl

end Behavior

open Behavior in
/-- After any use of a bus that leaves the same listeners in both registries, a
plain dispatch calls them by name up to the first code other than zero, and a
dispatch within a transaction does the same and returns the same code, unless
one of these listeners fails. The first that does is the last that it calls,
and its failure is the result, while the plain dispatch goes on as if this
listener had answered zero. What is left of the connection is what the
listeners that were called within the transaction have made of it, in the order
of their names. -/
theorem dispatchWithin_agrees [DecidableEq L] (β : Behavior L C) (settings : Settings)
    (ops : List (Nat × Operation L L))
    (hsame : standing (registrationsWithin ops) = standing (registrations ops))
    (m : Message L) (c : C) :
    let b := used settings ops
    ∃ called code, InByteOrder b.listeners.keys ∧ called <+: b.listeners.entries ∧
      (code = 0 ∧ called = b.listeners.entries ∧
          (∀ e ∈ called, ∀ n, β.outcome e.2 = .ok n → n = 0) ∨
        code ≠ 0 ∧ ∃ before e, called = before ++ [e] ∧ β.outcome e.2 = .ok code ∧
          ∀ e' ∈ before, ∀ n, β.outcome e'.2 = .ok n → n = 0) ∧
      dispatch (logged β.plain) m ⟨b, c, []⟩
        = (.ok code, ⟨b, c, β.visits called ++ m.context.postActions.map β.visit⟩) ∧
      ((∀ e ∈ called, ∃ n, β.outcome e.2 = .ok n) →
        dispatchWithin (logged β.within) m ⟨b, c, []⟩
          = (.code code, ⟨b, β.effects called c, β.visits called⟩)) ∧
      ∀ before e after err, called = before ++ e :: after →
        (∀ e' ∈ before, ∃ n, β.outcome e'.2 = .ok n) → β.outcome e.2 = .error err →
          dispatchWithin (logged β.within) m ⟨b, c, []⟩
            = (.failure err, ⟨b, β.effects (before ++ [e]) c, β.visits (before ++ [e])⟩) ∧
          dispatch (logged (β.corrected e.2).plain) m ⟨b, c, []⟩
            = (.ok code, ⟨b, c, (β.corrected e.2).visits called
              ++ m.context.postActions.map (β.corrected e.2).visit⟩) := by
  intro b
  have hlisteners : b.listeners = recorded (registrations ops) := listeners_used settings ops
  have htables : b.transactional = b.listeners := by
    rw [hlisteners, ← recorded_congr hsame]
    exact transactional_used settings ops
  have hascending : b.listeners.Ascending := by
    rw [hlisteners]
    exact ascending_recorded _
  refine ⟨β.called b, (lastReply (β.visits (β.called b))).countedAs,
    inByteOrder_keys hascending, upTo_prefix _ _, β.called_cases b, β.dispatch_plain b m c,
    fun hok => ?_, fun before e after err hcalled hok herr => ⟨?_, ?_⟩⟩
  · rw [dispatchWithin_eq, β.calledWithin_of_ok htables hok]
    -- All replies are codes, so the last one is the code that it counts as.
    refine Prod.ext (lastReply_of_codes ?_) rfl
    intro v hv
    obtain ⟨e, he, rfl⟩ := List.mem_map.mp hv
    obtain ⟨n, hn⟩ := hok e he
    exact ⟨n, reply_of_ok hn⟩
  · rw [dispatchWithin_eq, β.calledWithin_of_error htables hcalled hok herr]
    refine Prod.ext ?_ rfl
    show lastReply (β.visits (before ++ [e])) = .failure err
    rw [visits, List.map_append, List.map_singleton, lastReply_concat, visit, reply_of_error herr]
  · -- The corrected listener counts as zero as before, so nobody else is called.
    have hcounted := countedAs_corrected herr
    have hsamecalls : (β.corrected e.2).called b = β.called b := by
      refine upTo_congr fun e' _ => ?_
      rw [Reply.vetoes, Reply.vetoes, hcounted]
    have hcode : (lastReply ((β.corrected e.2).visits (β.called b))).countedAs
        = (lastReply (β.visits (β.called b))).countedAs :=
      read_lastReply_congr Reply.countedAs (fun e' => hcounted e'.2) (β.called b)
    rw [(β.corrected e.2).dispatch_plain b m c, hsamecalls, hcode]

/-- Three listeners in both registries, who write down that they were called. -/
def audit : Behavior String (List String) where
  outcome name := if name = "credit" then .error .noRuntime else .ok name.length
  effect name journal := journal ++ [name]

/-- The one with the first name fails, the other two answer with a code. -/
def auditors : List (Nat × Operation String String) :=
  ["stock", "credit", "mail"].flatMap fun name =>
    [(0, .register name name), (0, .registerTransactional name name)]

theorem dispatchWithin_agrees_audit :
    standing (registrationsWithin auditors) = standing (registrations auditors) ∧
      dispatchWithin (logged audit.within) { id := 1 } ⟨used {} auditors, [], []⟩
        = (.failure .noRuntime, ⟨used {} auditors, ["credit"], [audit.visit "credit"]⟩) ∧
      dispatch (logged audit.plain) { id := 1 } ⟨used {} auditors, [], []⟩
        = (.ok 4, ⟨used {} auditors, [], [audit.visit "credit", audit.visit "mail"]⟩) := by
  have hsame : standing (registrationsWithin auditors) = standing (registrations auditors) := rfl
  obtain ⟨called, code, _, hcalled, _, hplain, _, hfails⟩ :=
    dispatchWithin_agrees audit {} auditors hsame { id := 1 } []
  have hvalue : dispatch (logged audit.plain) { id := 1 } ⟨used {} auditors, [], []⟩
      = (.ok 4, ⟨used {} auditors, [], [audit.visit "credit", audit.visit "mail"]⟩) := by
    rfl
  refine ⟨hsame, ?_, hvalue⟩
  -- The log of the plain dispatch tells how many were called.
  have hlength : called.length = 2 := by
    rw [hplain] at hvalue
    have hlog := congrArg (fun r => r.2.host.2.length) hvalue
    simpa [Behavior.visits] using hlog
  have htake := List.prefix_iff_eq_take.mp hcalled
  rw [hlength] at htake
  exact (hfails [] ("credit", "credit") [("mail", "mail")] .noRuntime htake (by simp) rfl).1

end Bus

namespace Node

/-- A node dispatches within a transaction with the connection that it is
given, which is gone afterwards. -/
theorem sendWithin_eq (n : Node) (m : Bus.Message Listener) (c : Connection) :
    (n.sendWithin m c).1 = (Bus.dispatchWithin (call maxDepth) m (n.withConnection c)).1 ∧
      (n.sendWithin m c).2.2
        = withConnection (Bus.dispatchWithin (call maxDepth) m (n.withConnection c)).2 .none :=
  ⟨rfl, rfl⟩

end Node

end Backplane
