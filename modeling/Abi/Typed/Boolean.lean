/-
  Truth values.
-/
import Abi.Scalar
import Abi.Typed.View

namespace Abi

/-- An encoded truth value. -/
structure Boolean where
  bytes : Bytes
deriving DecidableEq

namespace Boolean

instance : View Boolean where
  ofValue v := do
    v.expect .bool
    return ⟨v.bytes⟩
  toValue b := ⟨.bool, b.bytes⟩

/-- The encoding of a truth value. -/
def ofBool (b : Bool) : Boolean := ⟨Scalar.writeBool b⟩

/-- The truth value. -/
def decode (b : Boolean) : Except Error Bool := Scalar.readBool b.bytes

/-- The truth value is the given one; never so if the bytes are none. -/
def isBool (b : Boolean) (c : Bool) : Bool :=
  match b.decode with
  | .ok d => d = c
  | .error _ => false

end Boolean

end Abi
