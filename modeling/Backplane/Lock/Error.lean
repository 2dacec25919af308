/-!
# `Backplane.Lock.Error`: why a lock request is refused
-/

set_option autoImplicit false

namespace Backplane.Lock

/-- Why a lock request is refused. -/
inductive Error where
  | unknownResourceType (resourceType : String)
  /-- The type exists with other parameters. -/
  | conflictingDefinition (resourceType : String) (maxLocks : Nat) (allowMulti : Bool)
  | invalidMaxLocks (resourceType : String)
  /-- Locks of the type have single owners. -/
  | multiNotAllowed (resourceType : String)
  | emptyOwnerSet
  | notLocked (resourceType : String) (id : Int)
  | notOwner (resourceType : String) (id : Int) (users : List Int)
deriving Repr, DecidableEq

namespace Error

/-- A truth value as a word. -/
def word (b : Bool) : String := if b then "true" else "false"

/-- Numbers in brackets with commas between them. -/
def listed (ns : List Int) : String :=
  "[" ++ String.intercalate ", " (ns.map toString) ++ "]"

/-- The text of an error. -/
def message : Error → String
  | unknownResourceType t => "Unknown resource type: " ++ t
  | conflictingDefinition t maxLocks allowMulti =>
    "Resource type " ++ t ++ " already defined with max_locks=" ++ toString maxLocks
      ++ ", allow_multi=" ++ word allowMulti
  | invalidMaxLocks t =>
    "Resource type " ++ t ++ " needs between one and Semaphore::MAX_PERMITS lock slots"
  | multiNotAllowed t => "Resource type " ++ t ++ " does not allow shared locks"
  | emptyOwnerSet => "Empty owner set"
  | notLocked t id => "Resource " ++ t ++ "/" ++ toString id ++ " is not locked"
  | notOwner t id users =>
    "Resource " ++ t ++ "/" ++ toString id ++ " is not locked by " ++ listed users

end Error

end Backplane.Lock
