/-
  Raw bytes: the type `byte[]`.
-/
import Abi.Typed.DynamicArray
import Abi.Typed.UInt

namespace Abi

/-- An encoded byte string. -/
structure ByteString where
  bytes : Bytes
deriving DecidableEq

namespace ByteString

instance : View ByteString where
  ofValue v := do
    v.expect .bytes
    return ⟨v.bytes⟩
  toValue b := ⟨.bytes, b.bytes⟩

/-- The encoding of raw bytes. -/
def ofRaw (raw : Bytes) : Except Error ByteString := do
  let v ← Value.limited .bytes (← Counted.writeBytes raw)
  return ⟨v.bytes⟩

/-- The host byte of a value that is an integer of eight bits. -/
def byteOfValue (v : Value) : Except Error UInt8 := do
  let u : UInt ← View.ofValue v
  if u.width ≠ 8 then throw (.mismatch "byte" v.ty.name)
  return UInt8.ofNat (← u.asWord64)

/-- The encoding of raw bytes, given at once or as one value each, but not in both ways. -/
def ofParts (raw : Option Bytes) (vs : List Value) : Except Error ByteString :=
  match raw with
  | some raw =>
    if vs.isEmpty then ofRaw raw else .error (.badValue .twoByteSources)
  | none => do
    ofRaw (← vs.mapM byteOfValue)

/-! ## Reading -/

/-- The raw bytes. -/
def decode (b : ByteString) : Except Error Bytes := Counted.readBytes b.bytes

/-- The number of bytes that the encoding declares. -/
def length (b : ByteString) : Except Error Nat := do
  return (← Word.splitCounted b.bytes).1

/-! ## Changing -/

/-- The byte string with more bytes at the end. -/
def extend (b : ByteString) (more : Bytes) : Except Error ByteString := do
  ofRaw ((← b.decode) ++ more)

/-- The byte string with a byte more at the end. -/
def append (b : ByteString) (byte : UInt8) : Except Error ByteString := b.extend [byte]

/-- The last byte and the byte string without it. -/
def pop (b : ByteString) : Except Error (UInt8 × ByteString) := do
  let raw ← b.decode
  match raw.getLast? with
  | none => throw .emptyArray
  | some byte => return (byte, ← ofRaw raw.dropLast)

/-- The same bytes as an array. -/
def toArray (b : ByteString) : DynamicArray := ⟨.byte, b.bytes⟩

end ByteString

end Abi
