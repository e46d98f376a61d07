/-
  Arrays with a fixed number of items: the types `T[N]`.
-/
import Abi.Handle
import Abi.Host.Decode
import Abi.Host.Encode
import Abi.Typed.Index

namespace Abi

/-- An encoded array of `size` items. -/
structure StaticArray where
  item : Ty
  size : Nat
  bytes : Bytes

namespace StaticArray

/-- The type of the array. -/
def ty (a : StaticArray) : Ty := .array a.item a.size

instance : View StaticArray where
  ofValue v :=
    match v.ty with
    | .array item size => .ok ⟨item, size, v.bytes⟩
    | t => .error (.mismatch "static array" t.name)
  toValue a := ⟨a.ty, a.bytes⟩

/-! ## Building -/

/-- The bytes that hold the given items. -/
def encode (item : Ty) (size : Nat) (vs : List Value) : Except Error StaticArray := do
  let v ← Value.limited (.array item size) (← Sequence.encode vs)
  return ⟨item, size, v.bytes⟩

/-- The array of the given items, which have to be `size` many and of type `item`. -/
def ofItems (item : Ty) (size : Nat) (vs : List Value) : Except Error StaticArray := do
  if vs.length ≠ size then
    let got := vs.length
    throw (.mismatch (Ty.array item size).name s!"{got} elements")
  Value.expectAll vs item
  encode item size vs

/-! ## Reading -/

/-- The items. -/
def items (a : StaticArray) : Except Error (List Value) := do
  Sequence.decode (← Ty.repeated a.item a.size) a.bytes

/-- The item at an index. -/
def get (a : StaticArray) (i : Int) : Except Error Value := do
  let k ← Index.position a.size i
  Index.item (← a.items) k

/-- The items between two bounds. -/
def slice (a : StaticArray) (start stop : Bound) : Except Error (List Value) := do
  return Index.slice (← a.items) start stop

/-- The items as a host value. -/
def decode (a : StaticArray) : Except Error Host := Host.decode a.ty a.bytes

/-! ## Changing -/

/-- The array with another item at a position. -/
def write (a : StaticArray) (k : Nat) (v : Value) : Except Error StaticArray := do
  v.expect a.item
  encode a.item a.size (← Index.replace (← a.items) k v)

/-- The array with another item at an index. -/
def set (a : StaticArray) (i : Int) (v : Value) : Except Error StaticArray := do
  a.write (← Index.position a.size i) v

/-- A key is read as an index, which is a signed word, and written as the position that it is. -/
instance : Container StaticArray Nat where
  read a k := a.get (Index.signed k)
  write := write

/-- The handle to the item at an index. -/
def handle (a : StaticArray) (i : Int) : Except Error (Handle StaticArray Nat) := do
  Handle.ofKey a (← Index.position a.size i)

/-! ## Comparison -/

/-- The arrays agree in type and bytes. -/
def Same (a b : StaticArray) : Prop := a.item.Same b.item ∧ a.size = b.size ∧ a.bytes = b.bytes

instance (a b : StaticArray) : Decidable (a.Same b) := inferInstanceAs (Decidable (_ ∧ _ ∧ _))

end StaticArray

end Abi
