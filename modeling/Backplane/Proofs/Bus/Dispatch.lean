import Backplane.Proofs.Bus.Calls
import Backplane.Proofs.Bus.Registry

/-!
# `Backplane.Proofs.Bus.Dispatch`: whom a dispatch calls

A message that is dispatched goes to the listeners that are registered then, in
the order of the bytes of their names, until one of them answers with a code
other than zero; failures and panics count as zero. After that all post actions
of the message are called, also if a listener has put an end to the dispatch.
The main statements:

* `dispatch_eq`: a dispatch as its calls, of listeners and of post actions.
* `dispatch_logged`: the same dispatch to listeners that keep a log.
* `dispatch_until_veto`: which calls a dispatch makes after any use of the bus,
  in which order, and what it returns.

Listeners may do anything when they are called, so what a call is answered may
depend on all calls before it. What they do to the bus makes no difference to
who is called.
-/

set_option autoImplicit false

namespace Backplane.Bus

variable {L T W : Type}

/-- The calls of the listeners of a bus, up to the first veto. -/
def callListeners (call : Caller L T W) (m : Message L) (s : Hosted L T W) :
    List (Visit L) × Hosted L T W :=
  callUntil Reply.vetoes (fun l => call l m) s.bus.listeners.values s

/-- The calls of the post actions that follow, up to the first panic. -/
def callPosts (call : Caller L T W) (m : Message L) (s : Hosted L T W) :
    List (Visit L) × Hosted L T W :=
  callUntil (fun r => r.panic?.isSome) (fun l => call l m) m.context.postActions
    (callListeners call m s).2

/-- A dispatch as its calls. -/
theorem dispatch_eq (call : Caller L T W) (m : Message L) (s : Hosted L T W) :
    dispatch call m s =
      (match (lastReply (callPosts call m s).1).panic? with
        | none => .ok (lastReply (callListeners call m s).1).countedAs
        | some text => .error text,
        (callPosts call m s).2) := by
  unfold dispatch callPosts callListeners
  simp only [callAll_eq, callPostActions_eq]
  split
  · rename_i heq
    obtain ⟨hnone, rfl⟩ := Prod.mk.inj heq
    rw [hnone]
  · rename_i heq
    obtain ⟨hsome, rfl⟩ := Prod.mk.inj heq
    rw [hsome]

/-- A dispatch to listeners that keep a log makes the same calls. -/
theorem dispatch_logged (call : Caller L T W) (m : Message L) (s : Hosted L T W)
    (log : List (Visit L)) :
    dispatch (logged call) m (s.withLog log) =
      ((dispatch call m s).1, (dispatch call m s).2.withLog
        (log ++ ((callListeners call m s).1 ++ (callPosts call m s).1))) := by
  have hlisteners : callListeners (logged call) m (s.withLog log) =
      ((callListeners call m s).1,
        (callListeners call m s).2.withLog (log ++ (callListeners call m s).1)) :=
    callUntil_logged _ call m _ s log
  have hposts : callPosts (logged call) m (s.withLog log) =
      ((callPosts call m s).1, (callPosts call m s).2.withLog
        (log ++ (callListeners call m s).1 ++ (callPosts call m s).1)) := by
    rw [callPosts, hlisteners]
    exact callUntil_logged _ call m _ _ _
  rw [dispatch_eq, dispatch_eq, hlisteners, hposts, List.append_assoc]

/-- Post actions that do not panic are all called. -/
theorem callPosts_of_calm {call : Caller L T W} {m : Message L}
    (hcalm : ∀ l ∈ m.context.postActions, ∀ s text, (call l m s).1 ≠ .panic text)
    (s : Hosted L T W) :
    (callPosts call m s).1.map Prod.fst = m.context.postActions ∧
      (lastReply (callPosts call m s).1).panic? = none := by
  have hnone : ∀ l ∈ m.context.postActions, ∀ s, (call l m s).1.panic?.isSome = false := by
    intro l hl s
    cases hreply : (call l m s).1 with
    | panic text => exact absurd hreply (hcalm l hl s text)
    | code n | failure e => rfl
  have hposts : (callPosts call m s).1.map Prod.fst = m.context.postActions ∧
      ∀ v ∈ (callPosts call m s).1, v.2.panic?.isSome = false := visits_of_calm hnone _
  refine ⟨hposts.1, read_lastReply_of_forall Reply.panic? ?_⟩
  intro v hv
  exact Option.isSome_eq_false_iff.mp (hposts.2 v hv) |> Option.isNone_iff_eq_none.mp

/-- If no post action panics, the result is the code of the listeners. -/
theorem dispatch_of_calm {call : Caller L T W} {m : Message L}
    (hcalm : ∀ l ∈ m.context.postActions, ∀ s text, (call l m s).1 ≠ .panic text)
    (s : Hosted L T W) : (dispatch call m s).1
      = .ok (callAll (fun l => call l m) s.bus.listeners.values s).1 := by
  rw [dispatch_eq, (callPosts_of_calm hcalm s).2, callAll_eq]
  rfl

theorem Reply.vetoes_iff {r : Reply} : r.vetoes = true ↔ ∃ n, n ≠ 0 ∧ r = .code n := by
  cases r <;> simp [Reply.vetoes, Reply.countedAs]

theorem Reply.vetoes_eq_false {r : Reply} : r.vetoes = false ↔ r.countedAs = 0 := by
  simp [Reply.vetoes]

/-- The code of a dispatch is that of the first veto, which is the last call,
and zero if there is none. -/
theorem callListeners_cases (call : Caller L T W) (m : Message L) (s : Hosted L T W) :
    (lastReply (callListeners call m s).1).countedAs = 0 ∧
        (callListeners call m s).1.map Prod.fst = s.bus.listeners.values ∧
        (∀ v ∈ (callListeners call m s).1, v.2.countedAs = 0) ∨
      (lastReply (callListeners call m s).1).countedAs ≠ 0 ∧
        ∃ before l, (callListeners call m s).1
            = before ++ [(l, .code (lastReply (callListeners call m s).1).countedAs)] ∧
          ∀ v ∈ before, v.2.countedAs = 0 := by
  rcases visits_cases Reply.vetoes (fun l => call l m) s.bus.listeners.values s with
    ⟨hall, hnone⟩ | ⟨before, ⟨l, reply⟩, hvisits, hveto, hbefore⟩
  · have hzero : ∀ v ∈ (callListeners call m s).1, v.2.countedAs = 0 := by
      intro v hv
      exact Reply.vetoes_eq_false.mp (hnone v hv)
    exact .inl ⟨read_lastReply_of_forall Reply.countedAs hzero, hall, hzero⟩
  · obtain ⟨n, hn, rfl⟩ := Reply.vetoes_iff.mp hveto
    have hlast : lastReply (callListeners call m s).1 = .code n := by
      rw [callListeners, hvisits, lastReply_concat]
    rw [hlast]
    refine .inr ⟨hn, before, l, hvisits, ?_⟩
    intro v hv
    exact Reply.vetoes_eq_false.mp (hbefore v hv)

/-- A message that is dispatched after any use of a bus is given to the
listeners that are left then, in the order of the bytes of their names, up to
the first that answers with a code other than zero, and after that to each of
its post actions. The code is the result; it is zero if there is no such
listener, and then all were called. -/
theorem dispatch_until_veto (settings : Settings) (ops : List (Nat × Operation L T))
    (call : Caller L T W) (m : Message L) (w : W)
    (hcalm : ∀ l ∈ m.context.postActions, ∀ s text, (call l m s).1 ≠ .panic text) :
    let b := used settings ops
    InByteOrder b.listeners.keys ∧
      (∀ name l, (name, l) ∈ b.listeners.entries ↔ standing (registrations ops) name = some l) ∧
      (∀ settings' (ops' : List (Nat × Operation L T)),
        standing (registrations ops') = standing (registrations ops) →
          (used settings' ops').listeners = b.listeners) ∧
      ∃ visits posts code s',
        dispatch call m ⟨b, w⟩ = (.ok code, s') ∧
        dispatch (logged call) m ⟨b, w, []⟩ = (.ok code, s'.withLog (visits ++ posts)) ∧
        visits.map Prod.fst <+: b.listeners.values ∧
        posts.map Prod.fst = m.context.postActions ∧
        (code = 0 ∧ visits.map Prod.fst = b.listeners.values ∧
            (∀ v ∈ visits, v.2.countedAs = 0) ∨
          code ≠ 0 ∧ ∃ before l, visits = before ++ [(l, .code code)] ∧
            ∀ v ∈ before, v.2.countedAs = 0) := by
  intro b
  have hlisteners : b.listeners = recorded (registrations ops) := listeners_used settings ops
  refine ⟨?_, ?_, ?_, ?_⟩
  · rw [hlisteners]
    exact inByteOrder_keys (ascending_recorded _)
  · intro name l
    rw [hlisteners]
    exact mem_entries_recorded _ name l
  · intro settings' ops' hsame
    rw [hlisteners, listeners_used, recorded_congr hsame]
  · obtain ⟨hposts, hnone⟩ := callPosts_of_calm hcalm ⟨b, w⟩
    have hdispatch := dispatch_eq call m ⟨b, w⟩
    rw [hnone] at hdispatch
    -- The log of the same dispatch, which is empty at first.
    have hlog := dispatch_logged call m ⟨b, w⟩ []
    rw [hdispatch] at hlog
    exact ⟨(callListeners call m ⟨b, w⟩).1, (callPosts call m ⟨b, w⟩).1, _, _, hdispatch, hlog,
      prefix_visits _ _ _ _, hposts, callListeners_cases call m _⟩

/-- Five listeners, of which one is gone again. Their names say nothing about
when they came. -/
def quarrel : List (Nat × Operation Reply Reply) :=
  [(0, .register "d" (.code 9)), (0, .register "b" (.failure .noRuntime)),
   (3, .register "c" (.code 7)), (3, .register "a" (.panic "out of ink")),
   (3, .register "aa" (.code 1)), (5, .unregister "aa")]

/-- A panic and a failure do not count, and after the veto there is the post
action still. -/
theorem dispatch_until_veto_quarrel :
    let m : Message Reply := { id := 1, context := { postActions := [.code 3] } }
    (∀ l ∈ m.context.postActions, ∀ s text, (Stage.plain.call l m s).1 ≠ .panic text) ∧
      ∃ (visits posts : List (Visit Reply)) (s' : Hosted Reply Reply Nat),
        dispatch (logged Stage.plain.call) m ⟨used {} quarrel, 0, []⟩
          = (.ok 7, s'.withLog (visits ++ posts)) ∧
        visits.map Prod.fst
          <+: [.panic "out of ink", .failure .noRuntime, .code 7, .code 9] ∧
        posts.map Prod.fst = [.code 3] := by
  intro m
  have hcalm : ∀ l ∈ m.context.postActions, ∀ s text,
      (Stage.plain.call l m s).1 ≠ .panic text := by
    intro l hl s text
    rw [List.mem_singleton.mp hl]
    exact fun heq => nomatch heq
  obtain ⟨_, _, _, visits, posts, code, s', hdispatch, hlog, hvisits, hposts, _⟩ :=
    dispatch_until_veto {} quarrel Stage.plain.call m 0 hcalm
  have hcode : (dispatch Stage.plain.call m ⟨used {} quarrel, 0⟩).1 = .ok 7 := rfl
  rw [hdispatch] at hcode
  cases hcode
  exact ⟨hcalm, visits, posts, s', hlog, hvisits, hposts⟩

end Backplane.Bus
