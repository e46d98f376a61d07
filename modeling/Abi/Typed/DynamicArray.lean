/-
  Arrays of any length: the types `T[]`.

  Every change reads all items, changes the list and encodes it anew.
-/
import Abi.Handle
import Abi.Host.Decode
import Abi.Host.Encode
import Abi.Typed.Index

namespace Abi

/-- An encoded array of any length. -/
structure DynamicArray where
  item : Ty
  bytes : Bytes

namespace DynamicArray

/-- The type of the array. -/
def ty (a : DynamicArray) : Ty := .list a.item

instance : View DynamicArray where
  ofValue v :=
    match v.ty with
    | .list item => .ok ⟨item, v.bytes⟩
    | t => .error (.mismatch "dynamic array" t.name)
  toValue a := ⟨a.ty, a.bytes⟩

/-! ## Building -/

/-- The bytes that hold the given items. -/
def encode (item : Ty) (vs : List Value) : Except Error DynamicArray := do
  let body ← Sequence.encode vs
  let v ← Value.limited (.list item) (← Word.counted vs.length body)
  return ⟨item, v.bytes⟩

/-- The array of the given items, which have to be of type `item`. -/
def ofItems (item : Ty) (vs : List Value) : Except Error DynamicArray := do
  Value.expectAll vs item
  encode item vs

/-- The array without items. -/
def empty (item : Ty) : DynamicArray := ⟨item, Word.bytes 0⟩

/-! ## Reading -/

/-- The number of items that the bytes declare. -/
def length (a : DynamicArray) : Except Error Nat := do
  return (← Word.splitCounted a.bytes).1

/-- The items. -/
def items (a : DynamicArray) : Except Error (List Value) := do
  let (count, body) ← Word.splitCounted a.bytes
  Sequence.decode (List.replicate count a.item) body

/-- The item at an index. -/
def get (a : DynamicArray) (i : Int) : Except Error Value := do
  let vs ← a.items
  Index.item vs (← Index.position vs.length i)

/-- The items between two bounds. -/
def slice (a : DynamicArray) (start stop : Bound) : Except Error (List Value) := do
  return Index.slice (← a.items) start stop

/-- The items as a host value. -/
def decode (a : DynamicArray) : Except Error Host := Host.decode a.ty a.bytes

/-! ## Changing -/

/-- The array with another item at a position. -/
def write (a : DynamicArray) (k : Nat) (v : Value) : Except Error DynamicArray := do
  v.expect a.item
  encode a.item (← Index.replace (← a.items) k v)

/-- The array with another item at an index. -/
def set (a : DynamicArray) (i : Int) (v : Value) : Except Error DynamicArray := do
  a.write (← Index.position (← a.length) i) v

/-- The array with an item more at the end. -/
def append (a : DynamicArray) (v : Value) : Except Error DynamicArray := do
  v.expect a.item
  encode a.item ((← a.items) ++ [v])

/-- The array with more items at the end. -/
def extend (a : DynamicArray) (vs : List Value) : Except Error DynamicArray := do
  Value.expectAll vs a.item
  encode a.item ((← a.items) ++ vs)

/-- The last item and the array without it. -/
def pop (a : DynamicArray) : Except Error (Value × DynamicArray) := do
  let vs ← a.items
  match vs.getLast? with
  | none => throw .emptyArray
  | some v => return (v, ← encode a.item vs.dropLast)

/-- The items of one array behind those of another of the same type. -/
def concat (a b : DynamicArray) : Except Error DynamicArray := do
  (View.toValue b).expect a.ty
  let vs ← a.items
  let ws ← b.items
  ofItems a.item (vs ++ ws)

/-- A key is read as an index, which is a signed word, and written as the position that it is. -/
instance : Container DynamicArray Nat where
  read a k := a.get (Index.signed k)
  write := write

/-- The handle to the item at an index. -/
def handle (a : DynamicArray) (i : Int) : Except Error (Handle DynamicArray Nat) := do
  Handle.ofKey a (← Index.position (← a.length) i)

/-! ## Comparison -/

/-- The arrays agree in type and bytes. -/
def Same (a b : DynamicArray) : Prop := a.item.Same b.item ∧ a.bytes = b.bytes

instance (a b : DynamicArray) : Decidable (a.Same b) := inferInstanceAs (Decidable (_ ∧ _))

end DynamicArray

end Abi
