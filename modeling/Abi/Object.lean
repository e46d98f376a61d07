/-
  Values under a view that is chosen while the program runs.
-/
import Abi.Typed.Account
import Abi.Typed.Boolean
import Abi.Typed.ByteString
import Abi.Typed.DynamicArray
import Abi.Typed.StaticArray
import Abi.Typed.Struct
import Abi.Typed.Text
import Abi.Typed.Tuple
import Abi.Typed.UFixed
import Abi.Typed.UInt

namespace Abi

/-- The views that there are; `value` is a value as it is. -/
inductive Kind where
  | value
  | uint
  | bool
  | ufixed
  | text
  | staticArray
  | dynamicArray
  | byteString
  | account
  | tuple
  | struct
deriving DecidableEq, Repr

namespace Kind

/-- The type of a view's members. -/
@[reducible] def Carrier : Kind → Type
  | value => Value
  | uint => UInt
  | bool => Boolean
  | ufixed => UFixed
  | text => Text
  | staticArray => StaticArray
  | dynamicArray => DynamicArray
  | byteString => ByteString
  | account => Account
  | tuple => Tuple
  | struct => Struct

instance : (k : Kind) → View k.Carrier
  | value => inferInstanceAs (View Value)
  | uint => inferInstanceAs (View UInt)
  | bool => inferInstanceAs (View Boolean)
  | ufixed => inferInstanceAs (View UFixed)
  | text => inferInstanceAs (View Text)
  | staticArray => inferInstanceAs (View StaticArray)
  | dynamicArray => inferInstanceAs (View DynamicArray)
  | byteString => inferInstanceAs (View ByteString)
  | account => inferInstanceAs (View Account)
  | tuple => inferInstanceAs (View Tuple)
  | struct => inferInstanceAs (View Struct)

/-- Two members of one view are the same. -/
def same : (k : Kind) → k.Carrier → k.Carrier → Bool
  | value, v, w => Value.Same v w
  | uint, u, v => u = v
  | bool, b, c => b = c
  | ufixed, d, e => d = e
  | text, s, t => s = t
  | staticArray, a, b => StaticArray.Same a b
  | dynamicArray, a, b => DynamicArray.Same a b
  | byteString, a, b => a = b
  | account, a, b => a = b
  | tuple, s, t => Tuple.Same s t
  | struct, s, t => Struct.Same s t

end Kind

/-- A member of some view. -/
structure Object where
  kind : Kind
  content : kind.Carrier

namespace Object

/-- The value behind an object. -/
def value (o : Object) : Value := View.toValue o.content

/-- The object for a value under the view of a kind. -/
def ofValue (kind : Kind) (v : Value) : Except Error Object := do
  return ⟨kind, ← View.ofValue v⟩

/-- The objects belong to one view and are the same in it. -/
def same (o p : Object) : Bool :=
  if h : o.kind = p.kind then p.kind.same (h ▸ o.content) p.content else false

end Object

end Abi
