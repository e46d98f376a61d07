/-
  Texts: the type `string`.
-/
import Abi.Counted
import Abi.Typed.View

namespace Abi

/-- An encoded text. -/
structure Text where
  bytes : Bytes
deriving DecidableEq

namespace Text

instance : View Text where
  ofValue v := do
    v.expect .string
    return ⟨v.bytes⟩
  toValue t := ⟨.string, t.bytes⟩

/-- The encoding of a text. -/
def ofString (s : String) : Except Error Text := do
  let v ← Value.limited .string (← Counted.writeText s)
  return ⟨v.bytes⟩

/-- The text. -/
def decode (t : Text) : Except Error String := Counted.readText t.bytes

/-- The length of the text in bytes. -/
def byteLength (t : Text) : Except Error Nat := do
  return (← t.decode).utf8ByteSize

/-- One text behind the other. -/
def concat (s t : Text) : Except Error Text := do
  let front ← s.decode
  let rest ← t.decode
  ofString (front ++ rest)

/-- The text is the given one; never so if the bytes are none. -/
def isString (t : Text) (s : String) : Bool :=
  match t.decode with
  | .ok u => u = s
  | .error _ => false

/-- The text, or else the bytes. -/
def text (t : Text) : String :=
  match t.decode with
  | .ok s => s
  | .error _ => t.bytes.marked

end Text

end Abi
