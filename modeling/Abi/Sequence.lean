/-
  Sequences of values: the content of tuples, structs and arrays.

  Children are read without a look at what they hold; each is checked when it is read itself.
-/
import Abi.Layout.Assemble
import Abi.Layout.Split
import Abi.Scalar
import Abi.Ty.Size
import Abi.Value

namespace Abi

/-- The room that a child of this type takes in the head of its parent. -/
def Ty.slot (t : Ty) : Layout.Slot :=
  if t.isBool then .bit
  else if t.isDynamic then .offset
  else .inline t.fixedSize

/-- The value as a child; its bytes have to be as many as its type asks for. -/
def Value.part (v : Value) : Except Error Layout.Part :=
  match v.ty.slot with
  | .bit => (Scalar.readBool v.bytes).map .bit
  | .offset => .ok (.tail v.bytes)
  | .inline size =>
    if v.bytes.length = size then .ok (.inline v.bytes)
    else .error (.malformed (.element v.ty.name v.bytes.length size))

namespace Sequence

/-- The bytes of a sequence of values. -/
def encode (vs : List Value) : Except Error Bytes := do
  let parts ← vs.mapM Value.part
  Layout.assemble parts

/-- The values of the given types that stand in a sequence. -/
def decode (ts : List Ty) (buffer : Bytes) : Except Error (List Value) := do
  let children ← Layout.split (ts.map Ty.slot) buffer
  return List.zipWith Value.mk ts children

theorem length_decode {ts : List Ty} {buffer : Bytes} {vs : List Value}
    (h : decode ts buffer = .ok vs) : vs.length = ts.length := by
  simp only [decode, bind, Except.bind, pure, Except.pure] at h
  split at h
  · cases h
  · rename_i children hc
    cases h
    have := Layout.length_split hc
    simp at this
    simp [this]

end Sequence

end Abi
