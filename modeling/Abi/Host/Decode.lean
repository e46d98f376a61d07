/-
  From bytes to host values, with a check of every length and offset on the way.
-/
import Abi.Counted
import Abi.Host.Basic
import Abi.Numeral.FixedPoint
import Abi.Sequence

namespace Abi

namespace Host

mutual

/-- The host value that bytes stand for as a type. -/
def decode : Ty → Bytes → Except Error Host
  | .uint width, bs => (Scalar.readUInt width bs).map .int
  | .byte, bs => (Scalar.readUInt 8 bs).map .int
  | .bool, bs => (Scalar.readBool bs).map .bool
  | .ufixed width precision, bs => do
    return .decimal (FixedPoint.write precision (← Scalar.readUInt width bs))
  | .address, bs => (Scalar.readAddress bs).map .address
  | .string, bs => (Counted.readText bs).map .text
  | .list item, bs =>
    match item with
    | .byte => (Counted.readBytes bs).map .bytes
    | _ => do
      let (count, body) ← Word.splitCounted bs
      let children ← Layout.split (List.replicate count item.slot) body
      return .list (← children.mapM (decode item))
  | .array item size, bs => do
    let items ← Ty.repeated item size
    let children ← Layout.split (items.map Ty.slot) bs
    return .list (← children.mapM (decode item))
  | .tuple items, bs => do
    let children ← Layout.split (items.map Ty.slot) bs
    return .tuple (← decodeItems items children)
  | .struct _ fields _, bs => do
    let children ← Layout.split (fields.map (·.2.slot)) bs
    return .struct (← decodeFields fields children)

/-- The host values that bytes stand for as one type each. -/
def decodeItems : List Ty → List Bytes → Except Error (List Host)
  | t :: ts, bs :: bss => do
    let n ← decode t bs
    return n :: (← decodeItems ts bss)
  | _, _ => .ok []

/-- The host values that bytes stand for as the type of one field each, with its name. -/
def decodeFields : List (String × Ty) → List Bytes → Except Error (List (String × Host))
  | (f, t) :: fs, bs :: bss => do
    let n ← decode t bs
    return (f, n) :: (← decodeFields fs bss)
  | _, _ => .ok []

end

theorem decodeFields_eq (fs : List (String × Ty)) (bss : List Bytes) :
    decodeFields fs bss =
      (decodeItems (fs.map (·.2)) bss).map fun ns => (fs.map (·.1)).zip ns := by
  induction fs generalizing bss with
  | nil => cases bss <;> rfl
  | cons f fs ih =>
    cases bss with
    | nil => rfl
    | cons bs bss =>
      simp only [decodeFields, decodeItems, List.map_cons, ih, bind, Except.bind, pure,
        Except.pure]
      cases decode f.2 bs with
      | error e => rfl
      | ok n => cases decodeItems (fs.map (·.2)) bss <;> rfl

end Host

/-- The host value of a value. -/
def Value.decode (v : Value) : Except Error Host := Host.decode v.ty v.bytes

end Abi
