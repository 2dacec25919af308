import Backplane.Bus.Dispatch
import Mathlib.Data.List.Basic

/-!
# `Backplane.Proofs.Bus.Calls`: the calls that a dispatch makes

The three loops that call listeners do the same: they call one after the
other until a reply ends the calls. They differ in which replies do and in
what they make of the last one. `callUntil` is this loop, with the calls that
it makes and what each is answered. The main statements:

* `callAll_eq`, `callPostActions_eq`, `callTransactional_eq`: the loops of
  the bus are `callUntil`.
* `prefix_visits`, `visits_cases`: the calls are made in order and once each,
  to all listeners or up to the first reply that ends them.
* `callUntil_logged`: a log that listeners keep of their calls grows by these
  calls, and they are the same as without it.
-/

set_option autoImplicit false

namespace Backplane.Bus

variable {L T W σ : Type}

/-- A call of a listener that was made: the listener and its reply. -/
abbrev Visit (L : Type) := L × Reply

/-- Calls listeners in order until a reply stops the calls. -/
def callUntil (stops : Reply → Bool) (call : L → σ → Reply × σ) :
    List L → σ → List (Visit L) × σ
  | [], s => ([], s)
  | l :: rest, s =>
    let (reply, s) := call l s
    if stops reply then ([(l, reply)], s)
    else
      let (visits, s) := callUntil stops call rest s
      ((l, reply) :: visits, s)

/-- The reply to the last of the calls; zero if there were none. -/
def lastReply : List (Visit L) → Reply
  | [] => .code 0
  | [v] => v.2
  | _ :: rest => lastReply rest

variable {stops : Reply → Bool} {call : L → σ → Reply × σ} {l : L} {s : σ}

theorem callUntil_cons_stop (rest : List L) (h : stops (call l s).1 = true) :
    callUntil stops call (l :: rest) s = ([(l, (call l s).1)], (call l s).2) := by
  rw [callUntil]; simp [h]

theorem callUntil_cons_next (rest : List L) (h : stops (call l s).1 = false) :
    callUntil stops call (l :: rest) s =
      ((l, (call l s).1) :: (callUntil stops call rest (call l s).2).1,
        (callUntil stops call rest (call l s).2).2) := by
  rw [callUntil]; simp [h]

/-- A reply that reads like zero leaves the reading to the replies after it. -/
theorem read_lastReply_cons {α : Type} (read : Reply → α) {v : Visit L}
    (h : read v.2 = read (.code 0)) (visits : List (Visit L)) :
    read (lastReply (v :: visits)) = read (lastReply visits) := by
  cases visits with
  | nil => exact h
  | cons => rfl

/-! ### The loops of the bus -/

/-- Whether a reply ends a plain dispatch. -/
def Reply.vetoes (r : Reply) : Bool := r.countedAs != 0

/-- The text of a panic. -/
def Reply.panic? : Reply → Option String
  | .panic text => some text
  | _ => none

/-- Whether a reply ends a dispatch within a transaction. -/
def Reply.aborts (r : Reply) : Bool := r != .code 0

theorem callAll_eq (call : L → σ → Reply × σ) (ls : List L) (s : σ) :
    callAll call ls s = ((lastReply (callUntil Reply.vetoes call ls s).1).countedAs,
      (callUntil Reply.vetoes call ls s).2) := by
  induction ls generalizing s with
  | nil => rfl
  | cons l rest ih =>
    by_cases h : (call l s).1.countedAs = 0
    · rw [callAll_cons_zero rest h, ih, callUntil_cons_next rest (by simp [Reply.vetoes, h]),
        read_lastReply_cons Reply.countedAs h]
    · rw [callAll_cons_veto rest h, callUntil_cons_stop rest (by simp [Reply.vetoes, h])]
      rfl

theorem callPostActions_eq (call : L → σ → Reply × σ) (ls : List L) (s : σ) :
    callPostActions call ls s =
      ((lastReply (callUntil (fun r => r.panic?.isSome) call ls s).1).panic?,
        (callUntil (fun r => r.panic?.isSome) call ls s).2) := by
  induction ls generalizing s with
  | nil => rfl
  | cons l rest ih =>
    rw [callPostActions]
    cases hcall : call l s with
    | mk reply s' =>
      have hfst : (call l s).1 = reply := by rw [hcall]
      -- Only a panic stops these calls.
      cases reply with
      | panic text =>
        rw [callUntil_cons_stop rest (by rw [hfst]; rfl), hcall]
        rfl
      | code n | failure e =>
        rw [callUntil_cons_next rest (by rw [hfst]; rfl), hcall,
          read_lastReply_cons Reply.panic? rfl]
        exact ih s'

theorem callTransactional_eq (call : T → σ → Reply × σ) (ls : List T) (s : σ) :
    callTransactional call ls s =
      (lastReply (callUntil Reply.aborts call ls s).1, (callUntil Reply.aborts call ls s).2) := by
  induction ls generalizing s with
  | nil => rfl
  | cons l rest ih =>
    rw [callTransactional]
    cases hcall : call l s with
    | mk reply s' =>
      -- Whatever is not a zero stops these calls, and is the result as it is.
      by_cases h : reply = .code 0
      · subst h
        rw [callUntil_cons_next rest (by rw [hcall]; rfl), hcall]
        have hlast := read_lastReply_cons (v := (l, .code 0)) id rfl
          (callUntil Reply.aborts call rest s').1
        exact (ih s').trans (congrArg (·, _) hlast.symm)
      · rw [callUntil_cons_stop rest (by rw [hcall]; simp [Reply.aborts, h]), hcall]
        cases reply with
        | code n =>
          have hn : n ≠ 0 := fun hn => h (congrArg Reply.code hn)
          simp only [if_neg hn]
          rfl
        | failure e | panic text => rfl

/-- Listeners that do not put an end to the calls leave the rest to be called. -/
theorem callAll_append_zero {before : List L} {s : σ} (rest : List L)
    (h : (callAll call before s).1 = 0) :
    callAll call (before ++ rest) s = callAll call rest (callAll call before s).2 := by
  induction before generalizing s with
  | nil => rfl
  | cons l before ih =>
    by_cases hl : (call l s).1.countedAs = 0
    · rw [callAll_cons_zero before hl] at h ⊢
      rw [List.cons_append, callAll_cons_zero _ hl]
      exact ih h
    · rw [callAll_cons_veto before hl] at h
      exact absurd h hl

/-- A dispatch ends where its post actions do, which start where the listeners
ended. -/
theorem dispatch_snd (call : Caller L T W) (m : Message L) (s : Hosted L T W) :
    (dispatch call m s).2 = (callPostActions (fun l => call l m) m.context.postActions
      (callAll (fun l => call l m) s.bus.listeners.values s).2).2 := by
  unfold dispatch
  simp only
  split <;> simp [*]

/-! ### Which calls are made -/

/-- The calls are made in order, and each listener is called once. -/
theorem prefix_visits (stops : Reply → Bool) (call : L → σ → Reply × σ) (ls : List L) (s : σ) :
    (callUntil stops call ls s).1.map Prod.fst <+: ls := by
  induction ls generalizing s with
  | nil => exact List.prefix_rfl
  | cons l rest ih =>
    cases h : stops (call l s).1 with
    | true =>
      rw [callUntil_cons_stop rest h]
      exact List.cons_prefix_cons.mpr ⟨rfl, List.nil_prefix⟩
    | false =>
      rw [callUntil_cons_next rest h]
      exact List.cons_prefix_cons.mpr ⟨rfl, ih _⟩

/-- Either all listeners are called and no reply stops the calls, or the first
that does is the last. -/
theorem visits_cases (stops : Reply → Bool) (call : L → σ → Reply × σ) (ls : List L) (s : σ) :
    ((callUntil stops call ls s).1.map Prod.fst = ls ∧
        ∀ v ∈ (callUntil stops call ls s).1, stops v.2 = false) ∨
      ∃ before v, (callUntil stops call ls s).1 = before ++ [v] ∧ stops v.2 = true ∧
        ∀ u ∈ before, stops u.2 = false := by
  induction ls generalizing s with
  | nil => exact .inl ⟨rfl, by simp [callUntil]⟩
  | cons l rest ih =>
    cases h : stops (call l s).1 with
    | true =>
      rw [callUntil_cons_stop rest h]
      exact .inr ⟨[], (l, (call l s).1), rfl, h, by simp⟩
    | false =>
      rw [callUntil_cons_next rest h]
      rcases ih (call l s).2 with ⟨hall, hnone⟩ | ⟨before, v, hvisits, hstop, hbefore⟩
      · refine .inl ⟨congrArg (l :: ·) hall, ?_⟩
        intro v hv
        rcases List.mem_cons.mp hv with rfl | hv
        · exact h
        · exact hnone v hv
      · refine .inr ⟨(l, (call l s).1) :: before, v, by rw [hvisits]; rfl, hstop, ?_⟩
        intro u hu
        rcases List.mem_cons.mp hu with rfl | hu
        · exact h
        · exact hbefore u hu

/-- Listeners that never stop the calls are all called. -/
theorem visits_of_calm {ls : List L} (hcalm : ∀ l ∈ ls, ∀ s, stops (call l s).1 = false) (s : σ) :
    (callUntil stops call ls s).1.map Prod.fst = ls ∧
      ∀ v ∈ (callUntil stops call ls s).1, stops v.2 = false := by
  induction ls generalizing s with
  | nil => exact ⟨rfl, by simp [callUntil]⟩
  | cons l rest ih =>
    have hl := hcalm l List.mem_cons_self s
    obtain ⟨hall, hnone⟩ := ih (fun l' hl' => hcalm l' (List.mem_cons_of_mem l hl')) (call l s).2
    rw [callUntil_cons_next rest hl]
    refine ⟨congrArg (l :: ·) hall, ?_⟩
    intro v hv
    rcases List.mem_cons.mp hv with rfl | hv
    · exact hl
    · exact hnone v hv

theorem lastReply_concat (visits : List (Visit L)) (v : Visit L) :
    lastReply (visits ++ [v]) = v.2 := by
  induction visits with
  | nil => rfl
  | cons u rest ih =>
    cases rest with
    | nil => rfl
    | cons => exact ih

/-- What is read off the last reply if no reply is read as another than zero. -/
theorem read_lastReply_of_forall {α : Type} (read : Reply → α) {visits : List (Visit L)}
    (h : ∀ v ∈ visits, read v.2 = read (.code 0)) :
    read (lastReply visits) = read (.code 0) := by
  induction visits with
  | nil => rfl
  | cons v rest ih =>
    rw [read_lastReply_cons read (h v List.mem_cons_self)]
    exact ih fun u hu => h u (List.mem_cons_of_mem v hu)

/-- What is read off the last reply depends on what is read off each. -/
theorem read_lastReply_congr {α β : Type} (read : Reply → β) {f g : α → Visit L}
    (h : ∀ a, read (f a).2 = read (g a).2) (l : List α) :
    read (lastReply (l.map f)) = read (lastReply (l.map g)) := by
  induction l with
  | nil => rfl
  | cons a rest ih =>
    cases rest with
    | nil => exact h a
    | cons => exact ih

theorem lastReply_of_codes {visits : List (Visit L)} (h : ∀ v ∈ visits, ∃ n, v.2 = .code n) :
    lastReply visits = .code (lastReply visits).countedAs := by
  induction visits with
  | nil => rfl
  | cons v rest ih =>
    cases rest with
    | nil =>
      obtain ⟨n, hn⟩ := h v List.mem_cons_self
      rw [lastReply, hn]
      rfl
    | cons => exact ih fun u hu => h u (List.mem_cons_of_mem v hu)

/-! ### Calls in a log -/

/-- What is around the bus, with a log of calls beside it. -/
def Hosted.withLog (s : Hosted L T W) (log : List (Visit L)) :
    Hosted L T (W × List (Visit L)) :=
  ⟨s.bus, s.host, log⟩

/-- Listeners that note each call and its reply in a log, which is around the
bus. -/
def logged (call : Caller L T W) : Caller L T (W × List (Visit L)) := fun l m s =>
  let (reply, s') := call l m ⟨s.bus, s.host.1⟩
  (reply, s'.withLog (s.host.2 ++ [(l, reply)]))

/-- The log grows by the calls that are made, and they are those that would be
made without it. -/
theorem callUntil_logged (stops : Reply → Bool) (call : Caller L T W) (m : Message L)
    (ls : List L) (s : Hosted L T W) (log : List (Visit L)) :
    callUntil stops (fun l => logged call l m) ls (s.withLog log) =
      ((callUntil stops (fun l => call l m) ls s).1,
        (callUntil stops (fun l => call l m) ls s).2.withLog
          (log ++ (callUntil stops (fun l => call l m) ls s).1)) := by
  induction ls generalizing s log with
  | nil => rw [callUntil, callUntil, List.append_nil]
  | cons l rest ih =>
    have hcall : logged call l m (s.withLog log) =
        ((call l m s).1, (call l m s).2.withLog (log ++ [(l, (call l m s).1)])) := rfl
    cases hstop : stops (call l m s).1 with
    | true =>
      rw [callUntil_cons_stop rest hstop, callUntil_cons_stop rest hstop, hcall]
    | false =>
      rw [callUntil_cons_next rest hstop, callUntil_cons_next rest hstop, hcall]
      simp only [ih, List.append_assoc, List.singleton_append]

end Backplane.Bus
