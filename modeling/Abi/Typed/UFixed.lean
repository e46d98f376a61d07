/-
  Unsigned decimals with a fixed number of places: the types `ufixed<N>x<M>`.
-/
import Abi.Numeral.FixedPoint
import Abi.Scalar
import Abi.Typed.View

namespace Abi

/-- An encoded decimal. -/
structure UFixed where
  width : Nat
  precision : Nat
  bytes : Bytes
deriving DecidableEq

namespace UFixed

instance : View UFixed where
  ofValue v :=
    match v.ty with
    | .ufixed width precision => .ok ⟨width, precision, v.bytes⟩
    | t => .error (.mismatch "ufixed" t.name)
  toValue d := ⟨.ufixed d.width d.precision, d.bytes⟩

/-- The encoding of a literal. -/
def ofLiteral (width precision : Nat) (literal : String) : Except Error UFixed := do
  let t ← Ty.ofPrecision width precision
  let n ← FixedPoint.read precision literal
  return ⟨width, precision, ← Scalar.writeUInt t.name width n⟩

/-- The scaled integer. -/
def raw (d : UFixed) : Except Error Nat := Scalar.readUInt d.width d.bytes

/-- The decimal, with all places written out. -/
def decode (d : UFixed) : Except Error String := do
  return FixedPoint.write d.precision (← d.raw)

/-- The decimal, or else the bytes. -/
def text (d : UFixed) : String :=
  match d.decode with
  | .ok s => s
  | .error _ => d.bytes.marked

end UFixed

end Abi
