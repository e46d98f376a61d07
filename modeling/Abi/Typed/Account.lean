/-
  Account addresses as values: the type `address`.
-/
import Abi.Typed.Index
import Abi.Typed.UInt

namespace Abi

/-- An encoded account address. -/
structure Account where
  bytes : Bytes
deriving DecidableEq

namespace Account

instance : View Account where
  ofValue v := do
    v.expect .address
    return ⟨v.bytes⟩
  toValue a := ⟨.address, a.bytes⟩

/-- The encoding of an address. -/
def ofAddress (a : Address) : Account := ⟨a.bytes⟩

/-- The encoding of an address in text. -/
def ofText (s : String) : Except Error Account :=
  ((Address.ofText s).map ofAddress).mapError .address

/-- The address. -/
def decode (a : Account) : Except Error Address := Scalar.readAddress a.bytes

/-- The number of bytes of every address. -/
def length (_ : Account) : Nat := Limits.addressBytes

/-- The byte at an index. -/
def get (a : Account) (i : Int) : Except Error UInt := do
  let k ← Index.position a.length i
  let b ← Index.item (← a.decode).bytes k
  return UInt.byte b

/-- The address in text, or else the bytes. -/
def text (a : Account) : String :=
  match a.decode with
  | .ok b => b.text
  | .error _ => a.bytes.marked

end Account

end Abi
