/-
  The children of a sequence, as far as their layout goes.

  A part is a child that is about to be written, a slot is the room that its type asks for.
-/
import Abi.Bytes

namespace Abi.Layout

/-- A child that is about to be written. -/
inductive Part where
  /-- A boolean, which shares a byte with its neighbours. -/
  | bit (value : Bool)
  /-- Bytes that stand in the head. -/
  | inline (bytes : Bytes)
  /-- Bytes that stand in the tail; the head holds their offset. -/
  | tail (bytes : Bytes)
deriving DecidableEq, Repr

/-- The room that a child takes in the head. -/
inductive Slot where
  | bit
  | inline (size : Nat)
  | offset
deriving DecidableEq, Repr

/-- The room that a part takes in the head. -/
def Part.slot : Part → Slot
  | .bit _ => .bit
  | .inline bytes => .inline bytes.length
  | .tail _ => .offset

end Abi.Layout
