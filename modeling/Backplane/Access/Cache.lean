import Backplane.Data.Table

/-!
# `Backplane.Access.Cache`: a map whose entries expire

An entry lives for the lifetime of its cache after its last write or
refresh, by a clock that the caller reads. Expired entries stay until a
look-up or a purge hands them back, so that their owner can release what
they hold.
-/

set_option autoImplicit false

namespace Backplane.Access

/-- A stored value and the time from which on it counts as expired. -/
structure Cache.Entry (ν : Type) where
  value : ν
  expiresAt : UInt64
deriving Repr, DecidableEq

/-- A map with expiring entries. -/
structure Cache (κ ν : Type) where
  /-- The lifetime in milliseconds. -/
  ttl : UInt64
  table : Table κ (Cache.Entry ν)
deriving Repr, DecidableEq

namespace Cache

/-- What a look-up found. -/
inductive Lookup (ν : Type) where
  /-- A live value. -/
  | hit (v : ν)
  /-- A value that had expired; its entry is gone. -/
  | expired (v : ν)
  | miss
deriving Repr, DecidableEq

variable {κ ν : Type} [LT κ] [DecidableLT κ] [DecidableEq κ]

/-- The empty cache of a lifetime. -/
def empty (ttl : UInt64) : Cache κ ν := ⟨ttl, ∅⟩

/-- The last time that 64 bits can tell. -/
def lastTime : Nat := 18446744073709551615

/-- The end of a lifetime that starts now, or the last time there is. -/
def deadline (ttl now : UInt64) : UInt64 := .ofNat (min (now.toNat + ttl.toNat) lastTime)

/-- Whether an entry is still live. -/
def Entry.isLive (e : Entry ν) (now : UInt64) : Bool := now < e.expiresAt

/-- The stored values, live or expired, in key order. -/
def contents (c : Cache κ ν) : List ν := c.table.values.map Entry.value

/-- The number of entries, live or expired. -/
def size (c : Cache κ ν) : Nat := c.table.size

/-- Whether nothing is stored. -/
def isEmpty (c : Cache κ ν) : Bool := c.table.isEmpty

/-- Stores a value and gives back the one it replaces. -/
def insert (c : Cache κ ν) (k : κ) (v : ν) (now : UInt64) : Option ν × Cache κ ν :=
  ((c.table.get? k).map Entry.value,
    { c with table := c.table.insert k ⟨v, deadline c.ttl now⟩ })

/-- Starts the lifetime of an entry anew. -/
def refresh (c : Cache κ ν) (k : κ) (now : UInt64) : Cache κ ν :=
  { c with table := c.table.adjust k fun e => { e with expiresAt := deadline c.ttl now } }

/-- Looks a key up without touching its lifetime; an expired entry is
taken out. -/
def peek (c : Cache κ ν) (k : κ) (now : UInt64) : Lookup ν × Cache κ ν :=
  match c.table.get? k with
  | none => (.miss, c)
  | some e =>
    if e.isLive now then (.hit e.value, c)
    else (.expired e.value, { c with table := c.table.erase k })

/-- Looks a key up and starts its lifetime anew; an expired entry is
taken out. -/
def get (c : Cache κ ν) (k : κ) (now : UInt64) : Lookup ν × Cache κ ν :=
  match c.peek k now with
  | (.hit v, c) => (.hit v, c.refresh k now)
  | other => other

/-- Takes an entry out, live or expired. -/
def remove (c : Cache κ ν) (k : κ) : Option ν × Cache κ ν :=
  ((c.table.get? k).map Entry.value, { c with table := c.table.erase k })

/-- The first live entry, in key order, whose value passes a test. A map
without an order of its keys may come upon any other live entry that passes
it, if there is one. -/
def findEntry? (c : Cache κ ν) (now : UInt64) (p : ν → Bool) : Option (κ × Entry ν) :=
  c.table.entries.find? fun e => e.2.isLive now && p e.2.value

/-- The first live value that passes a test; its lifetime starts anew. -/
def find (c : Cache κ ν) (now : UInt64) (p : ν → Bool) : Option ν × Cache κ ν :=
  match c.findEntry? now p with
  | none => (none, c)
  | some (k, e) => (some e.value, c.refresh k now)

/-- Takes out every entry that passes a test. -/
def takeEntries (c : Cache κ ν) (p : Entry ν → Bool) : List ν × Cache κ ν :=
  ((c.table.values.filter p).map Entry.value,
    { c with table := c.table.filter fun _ e => !p e })

/-- Takes out every value that passes a test, live or expired. -/
def removeWhere (c : Cache κ ν) (p : ν → Bool) : List ν × Cache κ ν :=
  c.takeEntries fun e => p e.value

/-- Takes out every expired value. -/
def purge (c : Cache κ ν) (now : UInt64) : List ν × Cache κ ν :=
  c.takeEntries fun e => !e.isLive now

/-- The live values in key order. -/
def live (c : Cache κ ν) (now : UInt64) : List ν :=
  (c.table.values.filter fun e => e.isLive now).map Entry.value

end Cache

end Backplane.Access
