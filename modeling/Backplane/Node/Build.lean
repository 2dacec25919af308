import Backplane.Node.Run
import Backplane.Node.Settings

/-!
# `Backplane.Node.Build`: nodes made from parameters

A node can be put together from services that are not attached to each
other, or built as a whole from the parameters of an environment. The
whole node attaches both services to the bus and starts nothing.
-/

set_option autoImplicit false

namespace Backplane.Node

/-- Why a node cannot be built or started. -/
inductive BuildError where
  | bus (e : Bus.Error)
  | lock (e : Lock.Error)
  | access (e : Access.Error)
deriving Repr, DecidableEq

/-- The text of an error. -/
def BuildError.message : BuildError → String
  | bus e => "Bus error: " ++ e.message
  | lock e => "Lock service error: " ++ e.message
  | access e => "Token auth error: " ++ e.message

/-- A node of services that are not attached to the bus. -/
def ofServices (bus : Bus.Settings) (locks : Lock.Service) (access : Access.Service) : Node :=
  { bus := { settings := bus }, host := { locks, access } }

/-- Builds a node with a directory and a folder for its key pair. The
first fault is the result: first of the resource types, then of the
keys. -/
def build (s : Settings) (directory : Access.Directory) (folder : Key.Folder)
    (freshSeed : List UInt8) (clock : UInt64) (storage : Key.Storage := {}) :
    Except BuildError Node := do
  let locks ← (Lock.Service.ofDecls s.lockTypes).mapError .lock
  let keys ← (Key.Store.load folder freshSeed storage).1.mapError fun f => .access (.keystore f)
  let access := Access.Service.start s.access directory keys clock
  return attachAccess (attachLocks (ofServices s.bus locks access))

/-- Starts the delivery worker of a built node. -/
def launch (n : Node) : Except BuildError Unit × Node :=
  let (result, n) := n.start true
  (result.mapError .bus, n)

end Backplane.Node
