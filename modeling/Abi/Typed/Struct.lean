/-
  Structs: tuples with named fields.
-/
import Abi.Handle
import Abi.Ty.Struct
import Abi.Typed.Tuple

namespace Abi

/-- An encoded struct. -/
structure Struct where
  type : StructType
  bytes : Bytes

namespace Struct

/-- The type of the struct. -/
def ty (s : Struct) : Ty := s.type.ty

instance : View Struct where
  ofValue v :=
    match v.ty with
    | .struct name fields frozen => .ok ⟨⟨name, fields, frozen⟩, v.bytes⟩
    | t => .error (.mismatch "struct" t.name)
  toValue s := ⟨s.ty, s.bytes⟩

/-! ## Building -/

/-- The bytes that hold the given values. -/
def encode (type : StructType) (vs : List Value) : Except Error Struct := do
  let v ← Value.limited type.ty (← Sequence.encode vs)
  return ⟨type, v.bytes⟩

/-- Fails at the first value that does not have the type of its field. -/
def expectFields : List Ty → List Value → Except Error Unit
  | t :: ts, v :: vs => do
    v.expect t
    expectFields ts vs
  | _, _ => .ok ()

/-- The struct with the given values, in the order of its fields. -/
def ofValues (type : StructType) (vs : List Value) : Except Error Struct := do
  if vs.length ≠ type.types.length then
    let struct := type.name
    let tuple := type.ty.name
    let got := vs.length
    throw (.mismatch s!"{struct} {tuple}" s!"{got} values")
  expectFields type.types vs
  encode type vs

/-! ## Reading -/

/-- The values, in the order of the fields. -/
def values (s : Struct) : Except Error (List Value) := Sequence.decode s.type.types s.bytes

/-- The values with their names. -/
def fields (s : Struct) : Except Error (List (String × Value)) := do
  return s.type.names.zip (← s.values)

/-- The value of a field. -/
def get (s : Struct) (name : String) : Except Error Value := do
  let k ← s.type.indexOf name
  Index.item (← s.values) k

/-- The fields as a host value. -/
def decode (s : Struct) : Except Error Host := Host.decode s.ty s.bytes

/-! ## Changing -/

/-- The struct with another value in a field, unless it is frozen. -/
def set (s : Struct) (name : String) (v : Value) : Except Error Struct := do
  if s.type.frozen then throw (.immutable s.type.name name)
  let k ← s.type.indexOf name
  v.expect (← Index.item s.type.types k)
  encode s.type (← Index.replace (← s.values) k v)

instance : Container Struct String where
  read := get
  write := set

/-- The handle to a field. -/
def handle (s : Struct) (name : String) : Except Error (Handle Struct String) :=
  Handle.ofKey s name

/-! ## Tuples -/

/-- The tuple with the same bytes. -/
def toTuple (s : Struct) : Tuple := ⟨s.type.types, s.bytes⟩

/-- A tuple of the right type, seen as a struct. -/
def ofTuple (type : StructType) (t : Tuple) : Except Error Struct := do
  (View.toValue t).expect type.asTuple
  return ⟨type, t.bytes⟩

/-! ## Comparison -/

/-- The structs agree in declaration and bytes. -/
def Same (s t : Struct) : Prop := s.type.Same t.type ∧ s.bytes = t.bytes

instance (s t : Struct) : Decidable (s.Same t) := inferInstanceAs (Decidable (_ ∧ _))

end Struct

end Abi
