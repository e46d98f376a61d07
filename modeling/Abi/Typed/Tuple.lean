/-
  Tuples: the types `(T1,…,Tn)`.
-/
import Abi.Host.Decode
import Abi.Host.Encode
import Abi.Typed.Index
import Abi.Typed.View

namespace Abi

/-- An encoded tuple with items of the given types. -/
structure Tuple where
  types : List Ty
  bytes : Bytes

namespace Tuple

/-- The type of the tuple. -/
def ty (t : Tuple) : Ty := .tuple t.types

/-- A struct is seen as the tuple of its fields. -/
instance : View Tuple where
  ofValue v :=
    match v.ty with
    | .tuple types => .ok ⟨types, v.bytes⟩
    | .struct _ fields _ => .ok ⟨fields.map (·.2), v.bytes⟩
    | t => .error (.mismatch "tuple" t.name)
  toValue t := ⟨t.ty, t.bytes⟩

/-- The tuple of the given items. -/
def ofItems (vs : List Value) : Except Error Tuple := do
  let types := vs.map (·.ty)
  let v ← Value.limited (.tuple types) (← Sequence.encode vs)
  return ⟨types, v.bytes⟩

/-- The number of items. -/
def length (t : Tuple) : Nat := t.types.length

/-- The items. -/
def items (t : Tuple) : Except Error (List Value) := Sequence.decode t.types t.bytes

/-- The item at a position. -/
def get (t : Tuple) (k : Nat) : Except Error Value := do
  Index.item (← t.items) k

/-- The items as a host value. -/
def decode (t : Tuple) : Except Error Host := Host.decode t.ty t.bytes

/-- The tuples agree in types and bytes. -/
def Same (s t : Tuple) : Prop := Ty.SameAll s.types t.types ∧ s.bytes = t.bytes

instance (s t : Tuple) : Decidable (s.Same t) := inferInstanceAs (Decidable (_ ∧ _))

end Tuple

end Abi
