/-
  Views: types that hold the encoding of one kind of value.
-/
import Abi.Value

namespace Abi

/-- A type whose members stand for encoded values of one kind. -/
class View (T : Type) where
  /-- The member for a value, if its type is of that kind. The bytes are not looked at. -/
  ofValue : Value → Except Error T
  /-- The value that a member stands for. -/
  toValue : T → Value

instance : View Value where
  ofValue := .ok
  toValue := id

end Abi
