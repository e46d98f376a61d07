/-
  From host values to bytes.

  A type accepts a host value of its own kind and a few other spellings: an address also as text
  or as bytes, raw bytes also as a list, a tuple also as a list, a struct also as a tuple.
-/
import Abi.Counted
import Abi.Host.Basic
import Abi.Numeral.FixedPoint
import Abi.Sequence

namespace Abi

namespace Host

/-! ## Complaints -/

/-- The complaint about a host value that does not suit a type. -/
def mismatch (t : Ty) (n : Host) : Error := .mismatch t.name n.kind

/-- Fails unless there are as many host values as a type has items. -/
def expectCount (t : Ty) (count : Nat) (ns : List Host) : Except Error Unit :=
  if ns.length = count then .ok ()
  else
    let got := ns.length
    .error (.mismatch t.name s!"{got} elements")

/-- Fails unless the fields have the declared names, in order. -/
def expectFields (t : Ty) (struct : String) (names : List String)
    (fields : List (String × Host)) : Except Error Unit :=
  let given := fields.map (·.1)
  if given = names then .ok ()
  else
    let type := t.name
    .error (.mismatch s!"{type} fields of {struct}" (",".intercalate given))

/-! ## Encoding -/

mutual

/-- The bytes of a host value as a type, however many there are. -/
def bytesAs : Ty → Host → Except Error Bytes
  | .uint width, n =>
    match n with
    | .int i => Scalar.writeUInt (Ty.uint width).name width i
    | _ => .error (mismatch (.uint width) n)
  | .byte, n =>
    match n with
    | .int i => Scalar.writeUInt Ty.byte.name 8 i
    | _ => .error (mismatch .byte n)
  | .bool, n =>
    match n with
    | .bool b => .ok (Scalar.writeBool b)
    | _ => .error (mismatch .bool n)
  | .ufixed width precision, n =>
    match n with
    | .decimal literal => do
      let i ← FixedPoint.read precision literal
      Scalar.writeUInt (Ty.ufixed width precision).name width i
    | _ => .error (mismatch (.ufixed width precision) n)
  | .address, n =>
    match n with
    | .address a => .ok a.bytes
    | .text s => ((Address.ofText s).map (·.bytes)).mapError .address
    | .bytes bs => ((Address.ofBytes bs).map (·.bytes)).mapError .address
    | _ => .error (mismatch .address n)
  | .string, n =>
    match n with
    | .text s => Counted.writeText s
    | _ => .error (mismatch .string n)
  | .list item, n =>
    match item, n with
    | .byte, .bytes bs => Counted.writeBytes bs
    | _, .list ns => do
      let children ← ns.mapM fun n => do Value.limited item (← bytesAs item n)
      Word.counted children.length (← Sequence.encode children)
    | _, _ => .error (mismatch (.list item) n)
  | .array item size, n =>
    match n with
    | .list ns => do
      expectCount (.array item size) size ns
      Sequence.encode (← ns.mapM fun n => do Value.limited item (← bytesAs item n))
    | _ => .error (mismatch (.array item size) n)
  | .tuple items, n =>
    match n with
    | .tuple ns | .list ns => do
      expectCount (.tuple items) items.length ns
      Sequence.encode (← valuesAs items ns)
    | _ => .error (mismatch (.tuple items) n)
  | .struct name declared frozen, n =>
    match n with
    | .tuple ns => do
      expectCount (.struct name declared frozen) declared.length ns
      Sequence.encode (← valuesAsFields declared ns)
    | .struct fields => do
      expectFields (.struct name declared frozen) name (declared.map (·.1)) fields
      Sequence.encode (← valuesAsFields declared (fields.map (·.2)))
    | _ => .error (mismatch (.struct name declared frozen) n)

/-- The values of host values as one type each. -/
def valuesAs : List Ty → List Host → Except Error (List Value)
  | t :: ts, n :: ns => do
    let v ← Value.limited t (← bytesAs t n)
    return v :: (← valuesAs ts ns)
  | _, _ => .ok []

/-- The values of host values as the type of one field each. -/
def valuesAsFields : List (String × Ty) → List Host → Except Error (List Value)
  | (_, t) :: fs, n :: ns => do
    let v ← Value.limited t (← bytesAs t n)
    return v :: (← valuesAsFields fs ns)
  | _, _ => .ok []

end

theorem valuesAsFields_eq (fs : List (String × Ty)) (ns : List Host) :
    valuesAsFields fs ns = valuesAs (fs.map (·.2)) ns := by
  induction fs generalizing ns with
  | nil => cases ns <;> rfl
  | cons f fs ih => cases ns <;> simp [valuesAsFields, valuesAs, ih]

end Host

/-- The value of a host value as a type. -/
def Value.ofHost (t : Ty) (n : Host) : Except Error Value := do
  Value.limited t (← n.bytesAs t)

/-- The bytes of a host value as a type. -/
def Host.encode (t : Ty) (n : Host) : Except Error Bytes := do
  return (← Value.ofHost t n).bytes

end Abi
