/-
  Handles: a copy of one child of a container, with the container and the child's key, so that a
  changed copy can be written back.

  Containers are values, so a write answers the new container and leaves the old one alone.
-/
import Abi.Typed.View

namespace Abi

/-- A container whose children are read and replaced by key. -/
class Container (C : Type) (K : outParam Type) where
  /-- The child at a key. -/
  read : C → K → Except Error Value
  /-- The container with another child at a key. -/
  write : C → K → Value → Except Error C

/-- A child as it was read, its key, and the container that it was read from. -/
structure Handle (C K : Type) where
  owner : C
  key : K
  value : Value

namespace Handle

variable {C K : Type} [Container C K]

/-- The handle to the child at a key. -/
def ofKey (owner : C) (key : K) : Except Error (Handle C K) := do
  return ⟨owner, key, ← Container.read owner key⟩

/-- The owner with another child in this place. -/
def set (h : Handle C K) (v : Value) : Except Error C := Container.write h.owner h.key v

/-- The owner with the child changed by a function. -/
def update (h : Handle C K) (f : Value → Except Error Value) : Except Error C := do
  h.set (← f h.value)

/-- The owner with the child changed through a view of it, and what the change answers. -/
def modify {T α : Type} [View T] (h : Handle C K) (f : T → Except Error (α × T)) :
    Except Error (α × C) := do
  let t ← View.ofValue h.value
  let (a, t) ← f t
  return (a, ← h.set (View.toValue t))

end Handle

end Abi
