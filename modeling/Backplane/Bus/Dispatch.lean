import Backplane.Bus.Basic

/-!
# `Backplane.Bus.Dispatch`: calling the listeners of a message

A dispatch calls listeners in the order of their names until one of them
answers with a code other than zero. Listeners act on the bus and on a
state around it, so a call is a function on both. A failing listener is
no reason to stop a plain dispatch, and it ends one within a transaction.

The main statements:

* `callAll_cons_zero`: a listener that answers zero, fails or panics
  leaves the rest to be called.
* `callAll_cons_veto`: any other code is the result.
-/

set_option autoImplicit false

namespace Backplane.Bus

/-- How a listener ends a call. -/
inductive Reply where
  | code (n : Int)
  | failure (e : Error)
  | panic (text : String)
deriving Repr, DecidableEq

/-- A bus and the state around it. -/
structure Hosted (L T W : Type) where
  bus : Bus L T
  host : W

variable {L T W σ : Type}

/-- What the listeners of a bus do. -/
abbrev Caller (L T W : Type) := L → Message L → Hosted L T W → Reply × Hosted L T W

/-- The code that a reply counts as in a plain dispatch. -/
def Reply.countedAs : Reply → Int
  | .code n => n
  | .failure _ => 0
  | .panic _ => 0

/-- Calls listeners in order until one answers with a code other than
zero, which is the result. -/
def callAll (call : L → σ → Reply × σ) : List L → σ → Int × σ
  | [], s => (0, s)
  | l :: rest, s =>
    let (reply, s) := call l s
    if reply.countedAs = 0 then callAll call rest s else (reply.countedAs, s)

/-- Calls all listeners in order, whatever they answer; a panic ends the
calls and is the result. -/
def callPostActions (call : L → σ → Reply × σ) : List L → σ → Option String × σ
  | [], s => (none, s)
  | l :: rest, s =>
    match call l s with
    | (.panic text, s) => (some text, s)
    | (_, s) => callPostActions call rest s

/-- Calls the listeners of a bus for a message and then the post actions
of its context. Listeners that come or go meanwhile make no difference.
The result is the code, or the panic of a post action. -/
def dispatch (call : Caller L T W) (m : Message L) (s : Hosted L T W) :
    Except String Int × Hosted L T W :=
  let (code, s) := callAll (fun l => call l m) s.bus.listeners.values s
  -- The post actions are called also after a veto.
  match callPostActions (fun l => call l m) m.context.postActions s with
  | (none, s) => (.ok code, s)
  | (some text, s) => (.error text, s)

/-- Calls listeners in order until one fails or answers with a code other
than zero, which is the result. A panic ends the calls as well. -/
def callTransactional (call : T → σ → Reply × σ) : List T → σ → Reply × σ
  | [], s => (.code 0, s)
  | l :: rest, s =>
    match call l s with
    | (.code n, s) => if n = 0 then callTransactional call rest s else (.code n, s)
    | other => other

theorem callAll_cons_zero {call : L → σ → Reply × σ} {l : L} {s : σ} (rest : List L)
    (h : (call l s).1.countedAs = 0) :
    callAll call (l :: rest) s = callAll call rest (call l s).2 := by
  rw [callAll]; simp [h]

theorem callAll_cons_veto {call : L → σ → Reply × σ} {l : L} {s : σ} (rest : List L)
    (h : (call l s).1.countedAs ≠ 0) :
    callAll call (l :: rest) s = ((call l s).1.countedAs, (call l s).2) := by
  rw [callAll]; simp [h]

end Backplane.Bus
