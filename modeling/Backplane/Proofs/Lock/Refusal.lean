import Backplane.Proofs.Lock.Collection

/-!
# `Backplane.Proofs.Lock.Refusal`: what a refused call leaves

A call of a lock service is judged before it touches anything, and a call that
returns an error leaves the service as it was: no type is new, no lock is made,
and no owner, permit, waiter or last owner is another one. A list of unlocks is
no exception: it does what the unlocks do one after the other, where a repeated
id is unlocked repeatedly, and each of them that fails does nothing. The main
statements:

* `leaves_of_error`: what any call leaves that returns an error.
* `unlockAll_eq_singles`: a list of unlocks is its unlocks, one after the other.
* `unlock_ok_iff`: which unlocks succeed.
* `refusals_and_unlocks`: these three, at any moment.
* `not_always_unlocked_by_owner`: who may ask is judged first, so an owner of a
  lock of single owners cannot unlock it as one of several, and a list is
  refused also if it is empty.
-/

set_option autoImplicit false

namespace Backplane.Lock

/-! ### Who may ask -/

namespace Service

variable {s : Service} {t : String} {x : Int}

/-- Why a party may not ask for a type, if it may not: there is no such type,
or it asks for several users, and the type is for single owners or it names
none. -/
def refusal? (s : Service) (t : String) (p : Party) : Option Error :=
  match s.blocks.get? t, p with
  | none, _ => some (.unknownResourceType t)
  | some _, .one _ => none
  | some b, .many users =>
    if !b.allowMulti then some (.multiNotAllowed t)
    else if users.isEmpty then some .emptyOwnerSet
    else none

/-- The users of a party. -/
def Party.users : Party → List Int
  | .one user => [user]
  | .many users => users

/-- A party is refused, or it is given the type and its users. -/
theorem resolve_cases (s : Service) (t : String) (p : Party) :
    (∃ e, s.refusal? t p = some e ∧ s.resolve t p = .error e) ∨
      ∃ b, s.refusal? t p = none ∧ s.blocks.get? t = some b ∧
        s.resolve t p = .ok (b, .ofList p.users) := by
  unfold resolve multiBlock block refusal? userSet
  cases s.blocks.get? t with
  | none => cases p <;> exact .inl ⟨_, rfl, rfl⟩
  | some b =>
    cases p with
    | one user => exact .inr ⟨b, rfl, rfl, rfl⟩
    | many users =>
      obtain ⟨name, maxLocks, allowMulti, items⟩ := b
      cases allowMulti with
      | false => exact .inl ⟨_, rfl, rfl⟩
      | true =>
        cases users with
        | nil => exact .inl ⟨_, rfl, rfl⟩
        | cons u us => exact .inr ⟨_, rfl, rfl, rfl⟩

/-! ### Which unlocks succeed -/

/-- Something is released if one of the users is an owner. -/
theorem isSome_release_iff (shared : Bool) (i : Item) (users : Users) :
    (if shared then i.releaseShared? users else i.releaseFirst? users).isSome = true ↔
      ∃ u ∈ users.members, u ∈ i.owners := by
  cases shared with
  | true =>
    rw [if_pos rfl]
    unfold Item.releaseShared?
    rw [← Item.isOwnedByAny_iff]
    split <;> simp [*]
  | false =>
    rw [if_neg Bool.false_ne_true]
    unfold Item.releaseFirst? Item.releaseOwner?
    rw [List.findSome?_isSome_iff]
    refine exists_congr fun u => and_congr_right fun _ => ?_
    split <;> simp [*]

theorem owners_eq (s : Service) (t : String) (x : Int) :
    s.owners t x = match s.blocks.get? t with
      | none => .error (.unknownResourceType t)
      | some b => .ok (((b.items.get? x).map fun i => i.owners.members).getD []) := by
  unfold owners block
  cases s.blocks.get? t with
  | none => rfl
  | some b => rfl

/-- An unlock succeeds if the party may ask and one of its users is an owner. -/
theorem unlock_ok_iff (s : Service) (t : String) (x : Int) (p : Party) :
    (s.unlock t x p).1 = .ok () ↔
      s.refusal? t p = none ∧ ∃ os, s.owners t x = .ok os ∧ ∃ u ∈ p.users, u ∈ os := by
  unfold unlock unlockItem
  rw [owners_eq]
  rcases s.resolve_cases t p with ⟨e, hrefusal, hresolve⟩ | ⟨b, hrefusal, hb, hresolve⟩
  · simp [hrefusal, hresolve]
  · simp only [hrefusal, hresolve, hb, Except.ok.injEq, exists_eq_left', true_and]
    cases hitem : b.items.get? x with
    | none => simp
    | some i =>
      have howns : (∃ u ∈ (Roster.ofList p.users).members, u ∈ i.owners) ↔
          ∃ u ∈ p.users, u ∈ i.owners.members :=
        exists_congr fun u => and_congr_left fun _ => Roster.mem_ofList p.users u
      have hrelease := (isSome_release_iff b.allowMulti i (.ofList p.users)).trans howns
      simp only [Option.map_some, Option.getD_some]
      rw [← hrelease]
      cases if b.allowMulti then i.releaseShared? (.ofList p.users)
        else i.releaseFirst? (.ofList p.users) with
      | none => cases i.owners.isEmpty <;> simp
      | some released => simp

/-- An unlock that fails leaves the service as it was, and no call is woken. -/
theorem unlock_of_error {s : Service} {t : String} {x : Int} {p : Party} {e : Error}
    (h : (s.unlock t x p).1 = .error e) : s.unlock t x p = (.error e, s, []) := by
  obtain ⟨hs, hwoken⟩ := unlock_error_eq (Prod.ext h rfl)
  exact Prod.ext h (Prod.ext hs hwoken)

/-- Who may not ask cannot unlock. -/
theorem unlock_of_refusal {s : Service} {t : String} {p : Party} {e : Error}
    (h : s.refusal? t p = some e) (x : Int) : s.unlock t x p = (.error e, s, []) := by
  rcases s.resolve_cases t p with ⟨e', hrefusal, hresolve⟩ | ⟨b, hrefusal, _, _⟩
  · rw [h] at hrefusal
    cases hrefusal
    unfold unlock
    rw [hresolve]
  · rw [h] at hrefusal
    cases hrefusal

end Service

/-! ### Calls that return an error -/

/-- The error of an outcome. -/
def errorOf {α : Type} : Except Error α → Option Error
  | .error e => some e
  | .ok _ => none

/-- The error that a result tells. -/
def Result.error? : Result → Option Error
  | .declared outcome => errorOf outcome
  | .ran progress => errorOf progress
  | .unlocked outcome => errorOf outcome
  | .silent => none

/-- A call of a lock service: an event of its history, or a question, which is
answered from the locks that there are. -/
inductive ApiCall where
  | event (e : Event)
  | owners (t : String) (x : Int)
  | isLocked (t : String) (x : Int)
  | info (t : String) (x : Int)

namespace Moment

/-- The error that a call returns, if it returns one. -/
def error? (m : Moment) : ApiCall → Option Error
  | .event e => (m.result e).error?
  | .owners t x => errorOf (m.service.owners t x)
  | .isLocked t x => errorOf (m.service.isLocked t x)
  | .info t x => errorOf (m.service.info t x)

/-- The service after a call, and the calls that it has handed a permit. -/
def leaves (m : Moment) : ApiCall → Service × List CallId
  | .event e => ((m.step e).service, m.woken e)
  | .owners _ _ | .isLocked _ _ | .info _ _ => (m.service, [])

/-- A call that returns an error leaves the service as it was, if it is not a
list of unlocks. -/
theorem leaves_of_error {m : Moment} {c : ApiCall} {err : Error} (herr : m.error? c = some err)
    (hsingle : ∀ t ids p, c ≠ .event (.unlockAll t ids p)) : m.leaves c = (m.service, []) := by
  cases c with
  | owners t x | isLocked t x | info t x => rfl
  | event e =>
    cases e with
    | declare d =>
      change errorOf ((m.service.createResource d).map fun _ => ()) = some err at herr
      show ((m.service.createResource d).toOption.getD m.service, []) = (m.service, [])
      cases hcreate : m.service.createResource d with
      | error e' => rfl
      | ok s' =>
        rw [hcreate] at herr
        cases herr
    | request r =>
      -- The party is judged before any lock is looked at, and so before one is made.
      change errorOf (m.service.begin m.nextCall r m.now).1 = some err at herr
      show (m.service.begin m.nextCall r m.now).2 = (m.service, [])
      unfold Service.begin at herr ⊢
      cases hresolve : m.service.resolve r.resourceType r.party with
      | error e' => rfl
      | ok found =>
        rw [hresolve] at herr
        cases herr
    | unlock t x p =>
      change errorOf (m.service.unlock t x p).1 = some err at herr
      show (m.service.unlock t x p).2 = (m.service, [])
      cases hresult : (m.service.unlock t x p).1 with
      | ok u =>
        rw [hresult] at herr
        cases herr
      | error e' => rw [Service.unlock_of_error hresult]
    | unlockAll t ids p => exact absurd rfl (hsingle t ids p)
    -- A call that waits is granted or gives up, which is no error.
    | wake name | collect | elapse ms => cases herr

/-! ### Lists of unlocks -/

/-- The unlocks of a list. -/
def singles (t : String) (ids : List Int) (p : Service.Party) : List Event :=
  ids.map fun x => .unlock t x p

theorem answers_cons (m : Moment) (t : String) (x : Int) (rest : List Int) (p : Service.Party) :
    m.answers (singles t (x :: rest) p)
      = m.answer (.unlock t x p) :: (m.step (.unlock t x p)).answers (singles t rest p) :=
  rfl

/-- A list of unlocks that comes after others: what it leaves, whom it makes
ready besides, and its first error, if there was none before. -/
theorem foldl_unlockStep (t : String) (p : Service.Party) (ids : List Int) (m : Moment)
    (outcome : Except Error Unit) (woken : List CallId) :
    let after := ids.foldl (Service.unlockStep t p) (outcome, m.service, woken)
    (singles t ids p).foldl step m = { m with service := after.2.1 } ∧
      after.2.2 = woken ++ (m.answers (singles t ids p)).flatMap Answer.woken ∧
      errorOf after.1 = (errorOf outcome).or
        ((m.answers (singles t ids p)).findSome? fun a => a.result.error?) := by
  induction ids generalizing m outcome woken with
  | nil => simp [singles, answers]
  | cons x rest ih =>
    intro after
    let next := m.service.unlock t x p
    obtain ⟨hservice, hwoken, herror⟩ := ih (m.step (.unlock t x p))
      (Service.firstError outcome next.1) (woken ++ next.2.2)
    refine ⟨hservice, ?_, ?_⟩
    · rw [List.append_assoc] at hwoken
      exact hwoken
    · -- An error that came before is the first one still.
      have hfirst : errorOf (Service.firstError outcome next.1)
          = (errorOf outcome).or (errorOf next.1) := by
        cases outcome <;> rfl
      have hanswer : (m.answer (.unlock t x p)).result.error? = errorOf next.1 := rfl
      rw [hfirst, Option.or_assoc] at herror
      refine herror.trans (congrArg (Option.or _) ?_)
      rw [answers_cons, List.findSome?_cons, hanswer]
      cases errorOf next.1 <;> rfl

/-- If the party may not ask, each of the unlocks is refused and leaves
everything as it was. -/
theorem singles_of_refusal {m : Moment} {t : String} {p : Service.Party} {e : Error}
    (h : m.service.refusal? t p = some e) (ids : List Int) :
    (singles t ids p).foldl step m = m ∧
      ∀ a ∈ m.answers (singles t ids p), a.result.error? = some e ∧ a.woken = [] := by
  induction ids with
  | nil => exact ⟨rfl, fun a ha => nomatch ha⟩
  | cons x rest ih =>
    have hunlock := Service.unlock_of_refusal h x
    have hstep : m.step (.unlock t x p) = m := by
      show ({ m with service := (m.service.unlock t x p).2.1 } : Moment) = m
      rw [hunlock]
    have hanswer : m.answer (.unlock t x p) = ⟨m.now, .unlocked (.error e), []⟩ := by
      show (⟨m.now, .unlocked (m.service.unlock t x p).1, (m.service.unlock t x p).2.2⟩ : Answer) = _
      rw [hunlock]
    rw [answers_cons, singles, List.map_cons, List.foldl_cons, hstep, hanswer]
    exact ⟨ih.1, List.forall_mem_cons.mpr ⟨⟨rfl, rfl⟩, ih.2⟩⟩

/-- A list of unlocks is its unlocks, one after the other. It is refused like
each of them, and so it is also if it is empty. -/
theorem unlockAll_eq_singles (m : Moment) (t : String) (ids : List Int) (p : Service.Party) :
    m.step (.unlockAll t ids p) = (singles t ids p).foldl step m ∧
      m.woken (.unlockAll t ids p) = (m.answers (singles t ids p)).flatMap Answer.woken ∧
      (m.result (.unlockAll t ids p)).error? = (m.service.refusal? t p).or
        ((m.answers (singles t ids p)).findSome? fun a => a.result.error?) := by
  have hunlocks := m.service.unlockAll_eq t ids p
  show { m with service := (m.service.unlockAll t ids p).2.1 } = _ ∧
    (m.service.unlockAll t ids p).2.2 = _ ∧
    errorOf (m.service.unlockAll t ids p).1 = _
  rcases m.service.resolve_cases t p with ⟨e, hrefusal, hresolve⟩ | ⟨b, hrefusal, _, hresolve⟩
  · obtain ⟨hsame, hrefused⟩ := singles_of_refusal hrefusal ids
    rw [hresolve] at hunlocks
    rw [hunlocks, hrefusal, hsame]
    refine ⟨rfl, ?_, rfl⟩
    exact (List.flatMap_eq_nil_iff.mpr fun a ha => (hrefused a ha).2).symm
  · rw [hresolve] at hunlocks
    rw [hunlocks, hrefusal]
    obtain ⟨hservice, hwoken, herror⟩ := foldl_unlockStep t p ids m (.ok ()) []
    exact ⟨hservice.symm, hwoken, herror⟩

/-- At every moment, a call that returns an error leaves the service as it was
and wakes nobody. A list of unlocks does what they do one after the other, and
returns the first error among them; an empty list returns an error too, if the
party may not ask. An unlock for one user succeeds if that user is an owner,
and one for several if the type is for shared grants and one of them is. -/
theorem refusals_and_unlocks (m : Moment) :
    (∀ c err, m.error? c = some err → (∀ t ids p, c ≠ .event (.unlockAll t ids p)) →
      m.leaves c = (m.service, [])) ∧
    (∀ t ids p, m.step (.unlockAll t ids p) = (singles t ids p).foldl step m ∧
      m.woken (.unlockAll t ids p) = (m.answers (singles t ids p)).flatMap Answer.woken ∧
      (ids ≠ [] → (m.result (.unlockAll t ids p)).error?
        = (m.answers (singles t ids p)).findSome? fun a => a.result.error?) ∧
      (ids = [] → (m.result (.unlockAll t ids p)).error? = m.service.refusal? t p)) ∧
    (∀ t x u, (m.result (.unlock t x (.one u))).error? = none ↔
      ∃ os, m.service.owners t x = .ok os ∧ u ∈ os) ∧
    (∀ t x us, (m.result (.unlock t x (.many us))).error? = none ↔
      ∃ b os, m.service.blocks.get? t = some b ∧ b.allowMulti = true ∧
        m.service.owners t x = .ok os ∧ ∃ u ∈ us, u ∈ os) := by
  have hsucceeds : ∀ t x p, (m.result (.unlock t x p)).error? = none ↔
      m.service.refusal? t p = none ∧
        ∃ os, m.service.owners t x = .ok os ∧ ∃ u ∈ p.users, u ∈ os := by
    intro t x p
    rw [← Service.unlock_ok_iff]
    show errorOf (m.service.unlock t x p).1 = none ↔ _
    cases (m.service.unlock t x p).1 <;> simp [errorOf]
  refine ⟨fun c err => leaves_of_error, fun t ids p => ?_, fun t x u => ?_, fun t x us => ?_⟩
  · obtain ⟨hstep, hwoken, herror⟩ := m.unlockAll_eq_singles t ids p
    refine ⟨hstep, hwoken, fun hne => ?_, fun hnil => ?_⟩
    · rw [herror]
      cases hrefusal : m.service.refusal? t p with
      | none => rfl
      | some e =>
        -- The first of the unlocks is refused already.
        obtain ⟨x, rest, rfl⟩ := List.exists_cons_of_ne_nil hne
        have hrefused := (singles_of_refusal hrefusal (x :: rest)).2
        rw [answers_cons] at hrefused ⊢
        rw [List.findSome?_cons, (hrefused _ List.mem_cons_self).1]
        rfl
    · subst hnil
      rw [herror]
      exact Option.or_none
  · rw [hsucceeds, Service.owners_eq]
    unfold Service.refusal? Service.Party.users
    cases m.service.blocks.get? t with
    | none => simp
    | some b => simp
  · rw [hsucceeds, Service.owners_eq]
    unfold Service.refusal? Service.Party.users
    cases m.service.blocks.get? t with
    | none => simp
    | some b =>
      cases hmulti : b.allowMulti with
      | false => simp [hmulti]
      | true => cases us <;> simp [hmulti]

/-- A lock of single owners that user 10 owns. -/
def bedLocked : Moment :=
  after [.declare ⟨"bed", 1, false⟩, .request ⟨"bed", [1], .one 10, none⟩] 2

/-- An owner cannot unlock as one of several users where there are single
owners only, and a list without ids is refused for an unknown type, although
none of its unlocks fails. -/
theorem not_always_unlocked_by_owner :
    ¬ (∀ t x us, (bedLocked.result (.unlock t x (.many us))).error? = none ↔
      ∃ os, bedLocked.service.owners t x = .ok os ∧ ∃ u ∈ us, u ∈ os) ∧
    ¬ (∀ t ids p, (bedLocked.result (.unlockAll t ids p)).error?
      = (bedLocked.answers (singles t ids p)).findSome? fun a => a.result.error?) := by
  refine ⟨fun hall => ?_, fun hall => ?_⟩
  · have hunlock := (hall "bed" 1 [10]).mpr ⟨[10], rfl, 10, by decide, by decide⟩
    cases hunlock
  · have hempty := hall "room" [] (.one 10)
    cases hempty

end Moment

end Backplane.Lock
