/-
  Integers: the types `uint<N>` and `byte`.

  Two integers are the same if type and bytes agree.  Numbers of different widths are compared by
  `compare`, and with host integers by `compareNat?`.
-/
import Abi.Scalar
import Abi.Typed.View

namespace Abi

/-- The two ways to be an integer type. -/
inductive IntTy where
  | uint (width : Nat)
  | byte
deriving DecidableEq, Repr

namespace IntTy

/-- The number of bits. -/
def width : IntTy → Nat
  | .uint width => width
  | .byte => 8

/-- The type itself. -/
def ty : IntTy → Ty
  | .uint width => .uint width
  | .byte => .byte

end IntTy

/-! ## Encodings -/

/-- An encoded integer. -/
structure UInt where
  type : IntTy
  bytes : Bytes
deriving DecidableEq

namespace UInt

instance : View UInt where
  ofValue v :=
    match v.ty with
    | .uint width => .ok ⟨.uint width, v.bytes⟩
    | .byte => .ok ⟨.byte, v.bytes⟩
    | t => .error (.mismatch "uint" t.name)
  toValue u := ⟨u.type.ty, u.bytes⟩

/-- An integer of `width` bits. -/
def ofNat (width n : Nat) : Except Error UInt := do
  let t ← Ty.ofWidth width
  return ⟨.uint width, ← Scalar.writeUInt t.name width n⟩

/-- The bytes as an integer of `width` bits, unchecked. -/
def ofBytes (width : Nat) (bs : Bytes) : Except Error UInt := do
  let _ ← Ty.ofWidth width
  return ⟨.uint width, bs⟩

/-- The integer of a host byte. -/
def uint8 (n : UInt8) : UInt := ⟨.uint 8, [n]⟩

/-- The integer of a host word of two bytes. -/
def uint16 (n : UInt16) : UInt := ⟨.uint 16, BigEndian.encode 2 n.toNat⟩

/-- The integer of a host word of four bytes. -/
def uint32 (n : UInt32) : UInt := ⟨.uint 32, BigEndian.encode 4 n.toNat⟩

/-- The integer of a host word of eight bytes. -/
def uint64 (n : UInt64) : UInt := ⟨.uint 64, BigEndian.encode 8 n.toNat⟩

/-- A host byte as a byte. -/
def byte (n : UInt8) : UInt := ⟨.byte, [n]⟩

/-- The number of bits. -/
def width (u : UInt) : Nat := u.type.width

/-- The number. -/
def decode (u : UInt) : Except Error Nat := Scalar.readUInt u.width u.bytes

/-- The largest number of eight bytes. -/
def maxWord64 : Nat := 2 ^ (64 : Nat) - 1

/-- The number, if eight bytes can hold it. -/
def asWord64 (u : UInt) : Except Error Nat := do
  let n ← u.decode
  if n ≤ maxWord64 then return n else throw (.range "u64" (toString n))

/-! ## Comparison -/

/-- The order of the numbers, whatever their widths. -/
def compare (u v : UInt) : Except Error Ordering := do
  return Ord.compare (← u.decode) (← v.decode)

/-- The numbers are equal, whatever their widths. -/
def equal (u v : UInt) : Except Error Bool := do
  return (← u.compare v) = .eq

/-- The order of the number and a host integer; none if the bytes are no number. -/
def compareNat? (u : UInt) (n : Nat) : Option Ordering :=
  match u.decode with
  | .ok m => some (Ord.compare m n)
  | .error _ => none

/-- The number is the host integer. -/
def isNat (u : UInt) (n : Nat) : Bool :=
  match u.decode with
  | .ok m => m = n
  | .error _ => false

/-- The number in decimal, or else the bytes. -/
def text (u : UInt) : String :=
  match u.decode with
  | .ok n => toString n
  | .error _ => u.bytes.marked

end UInt

end Abi
