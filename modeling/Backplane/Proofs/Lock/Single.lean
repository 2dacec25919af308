import Backplane.Proofs.Lock.Collection

/-!
# `Backplane.Proofs.Lock.Single`: calls for one resource

A call for one id has nothing to take back and nothing to go on to, so its
whole life is an affair between the call and one lock. `Item.ask` and
`Item.attend` say what happens to this lock when the call begins and when
it is woken. The main statements:

* `Block.proceed_single`, `Block.resume_single`: a call for one id does
  just that, and leaves all other locks alone.
* `Call.IsFor.onward`: a call for one id stays one as long as it waits.
-/

set_option autoImplicit false

namespace Backplane.Lock

/-- A call for one id. -/
structure Call.IsFor (c : Call) (id : Int) : Prop where
  ids_eq : c.ids = [id]
  taken_eq : c.taken = []

namespace Item

/-- What a call that begins does to the lock that it asks for. -/
def ask (i : Item) (name : CallId) (c : Call) (now : Nat) (id : Int) : Progress × Item :=
  if i.isOwnedByAny c.users then (.done true, i)
  else match i.takePermit? with
    | some j => (.done true, j.grant c.users)
    | none =>
      if c.isLate now then (.done false, i)
      else (.waiting { c with ids := [id] }, i.enqueue name)

/-- What a call that is woken does to the lock that it waits for. -/
def attend (i : Item) (name : CallId) (c : Call) (now : Nat) : Progress × Item × List CallId :=
  if name ∈ i.handed then
    if (i.unhand name).isOwnedByAny c.users then (.done true, (i.unhand name).release 1)
    else (.done true, (i.unhand name).grant c.users, [])
  else if c.isLate now then (.done false, i.leave name, [])
  else (.waiting c, i, [])

end Item

namespace Block

variable {b : Block} {name : CallId} {c : Call} {now : Nat} {id : Int} {i : Item}

/-- Storing a lock that is there already changes nothing. -/
theorem setItem_of_get? (ha : b.items.Ascending) (hi : b.items.get? id = some i) :
    b.setItem id i = b := by
  unfold setItem
  rw [Table.insert_get? ha hi]

/-- A call without grants has nothing to take back. -/
theorem giveUp_of_taken_eq_nil (htaken : c.taken = []) : b.giveUp c = (.done false, b, []) := by
  unfold giveUp
  rw [rollBack_eq, htaken]
  rfl

/-- A call that begins with one id. -/
theorem proceed_single (b : Block) (name : CallId) (now : Nat) (id : Int) (htaken : c.taken = []) :
    b.proceed name c now [id] = (((b.item id).ask name c now id).1,
      b.setItem id ((b.item id).ask name c now id).2, []) := by
  unfold proceed Item.ask
  simp only
  split
  · rfl
  · cases htake : (b.item id).takePermit? with
    | some j => rfl
    | none =>
      dsimp only
      split
      · exact giveUp_of_taken_eq_nil htaken
      · rfl

/-- A call that waits for its only id and is woken. -/
theorem resume_single (hc : c.IsFor id) (ha : b.items.Ascending) (hi : b.items.get? id = some i)
    (name : CallId) (now : Nat) :
    b.resume name c now = ((i.attend name c now).1, b.setItem id (i.attend name c now).2.1,
      (i.attend name c now).2.2) := by
  unfold resume Item.attend
  simp only [hc.ids_eq, item_of_get? hi]
  split
  · unfold takeHanded
    simp only [item_of_get? hi]
    split
    · -- Nothing is left to lock after the permit has gone back.
      rw [proceed, List.append_nil]
    · rfl
  · split
    · exact giveUp_of_taken_eq_nil hc.taken_eq
    · show (Progress.waiting c, b, _) = (Progress.waiting c, b.setItem id i, _)
      rw [setItem_of_get? ha hi]

end Block

/-- A call for one id stays one as long as it waits. -/
theorem Call.IsFor.onward {c c' : Call} {id : Int} (hc : c.IsFor id) (h : c.Onward c') :
    c'.IsFor id := by
  have hsub := h.sublist
  rw [hc.taken_eq, hc.ids_eq, List.nil_append] at hsub
  have hlen := hsub.length_le
  have hpos := List.length_pos_of_ne_nil h.ids_ne_nil
  rw [List.length_append, List.length_singleton] at hlen
  have htaken : c'.taken = [] := List.eq_nil_of_length_eq_zero (by omega)
  rw [htaken, List.nil_append] at hsub
  exact ⟨hsub.eq_of_length_le (by rw [List.length_singleton]; exact hpos), htaken⟩

namespace Service

/-- A lock that a call waits for is there. -/
theorem Sound.waited {s : Service} (h : s.Sound) {name : CallId} {c : Call} {b : Block} {x : Int}
    (hc : s.calls.get? name = some c) (hhead : c.ids.head? = some x)
    (hb : s.blocks.get? c.resourceType = some b) :
    ∃ i, b.items.get? x = some i ∧ name ∈ i.queue := by
  have hqueue : name ∈ (b.item x).queue := (h.place hb x name).mpr ⟨c, hc, rfl, hhead⟩
  cases hi : b.items.get? x with
  | none =>
    rw [Block.item_of_get?_eq_none hi] at hqueue
    cases hqueue
  | some i =>
    rw [Block.item_of_get? hi] at hqueue
    exact ⟨i, rfl, hqueue⟩

/-- How a call for one id that is under way runs. -/
theorem resume_eq_of_isFor {s : Service} (hs : s.Sound) {name : CallId} {c : Call} {y : Int}
    (hc : s.calls.get? name = some c) (hfor : c.IsFor y) (now : Nat) :
    ∃ b i, s.blocks.get? c.resourceType = some b ∧ b.items.get? y = some i ∧
      s.resume name now = s.record name ((i.attend name c now).1,
        b.setItem y (i.attend name c now).2.1, (i.attend name c now).2.2) := by
  obtain ⟨b, hb, _⟩ := (hs.call hc).fits
  have hhead : c.ids.head? = some y := by rw [hfor.ids_eq]; rfl
  obtain ⟨i, hi, _⟩ := hs.waited hc hhead hb
  refine ⟨b, i, hb, hi, ?_⟩
  rw [← Block.resume_single hfor (hs.block hb).ascending hi]
  unfold Service.resume
  simp only [hc, hb]

/-- A request for one id begins a call for one id. -/
theorem isFor_callOf {r : Request} {id : Int} (hr : r.ids = [id]) (users : Users)
    (now : Nat) : (callOf r users now).IsFor id := by
  refine ⟨?_, rfl⟩
  show (Roster.ofList r.ids).members = [id]
  rw [hr, Roster.members_ofList_singleton]

end Service

end Backplane.Lock
