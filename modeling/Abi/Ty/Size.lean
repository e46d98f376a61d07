/-
  How many bytes the static content of a type takes, and which arrays are too large to exist.

  Sizes are clamped at `Limits.size` after every step, so that a declaration of any size is
  measured in bounded numbers.
-/
import Abi.Ty.Name

namespace Abi

/-! ## Clamped arithmetic -/

/-- The sum, clamped. -/
def clampedAdd (a b : Nat) : Nat := min (a + b) Limits.size

/-- The product, clamped. -/
def clampedMul (a b : Nat) : Nat := min (a * b) Limits.size

/-- The bytes that `count` adjacent booleans share. -/
def packedBytes (count : Nat) : Nat := (count + (Limits.boolsPerByte - 1)) / Limits.boolsPerByte

namespace Ty

mutual

/-- The bytes of a type: of a text or list only the offset is counted, and adjacent booleans
share bytes. -/
def fixedSize : Ty → Nat
  | .uint width | .ufixed width _ => width / 8
  | .byte | .bool => 1
  | .array item size =>
    if item.isBool then packedBytes size else clampedMul item.fixedSize size
  | .address => Limits.addressBytes
  | .tuple items => sizeOfItems 0 items
  | .struct _ fields _ => sizeOfFields 0 fields
  | .list _ | .string => Limits.wordBytes

/-- The bytes of the items in a row, if the byte before them has room for `free` booleans. -/
def sizeOfItems (free : Nat) : List Ty → Nat
  | [] => 0
  | .bool :: ts =>
    match free with
    | 0 => clampedAdd 1 (sizeOfItems (Limits.boolsPerByte - 1) ts)
    | free + 1 => sizeOfItems free ts
  | t :: ts => clampedAdd t.fixedSize (sizeOfItems 0 ts)

/-- The bytes of the fields in a row, if the byte before them has room for `free` booleans. -/
def sizeOfFields (free : Nat) : List (String × Ty) → Nat
  | [] => 0
  | (_, .bool) :: fs =>
    match free with
    | 0 => clampedAdd 1 (sizeOfFields (Limits.boolsPerByte - 1) fs)
    | free + 1 => sizeOfFields free fs
  | (_, t) :: fs => clampedAdd t.fixedSize (sizeOfFields 0 fs)

end

theorem sizeOfFields_eq (free : Nat) (fs : List (String × Ty)) :
    sizeOfFields free fs = sizeOfItems free (fs.map (·.2)) := by
  induction fs generalizing free with
  | nil => rfl
  | cons f fs ih =>
    obtain ⟨f, t⟩ := f
    cases t
    case bool => cases free <;> simp [sizeOfFields, sizeOfItems, ih]
    all_goals simp [sizeOfFields, sizeOfItems, ih]

/-! ## Item types -/

/-- The item types of an array, unless no value could hold that many. -/
def repeated (item : Ty) (size : Nat) : Except Error (List Ty) :=
  if Limits.word < size ∨ Limits.valueBytes < (Ty.array item size).fixedSize then
    .error (.oversize (.array item.name size))
  else .ok (List.replicate size item)

/-- The item types of a type with a fixed number of items. -/
def itemTypes? : Ty → Except Error (Option (List Ty))
  | .array item size => (repeated item size).map some
  | .address => .ok (some (List.replicate Limits.addressBytes .byte))
  | .tuple items => .ok (some items)
  | .struct _ fields _ => .ok (some (fields.map (·.2)))
  | .uint _ | .byte | .bool | .ufixed _ _ | .list _ | .string => .ok none

theorem eq_replicate_of_repeated {item : Ty} {size : Nat} {ts : List Ty}
    (h : repeated item size = .ok ts) : ts = List.replicate size item := by
  simp only [repeated] at h
  split at h
  · cases h
  · cases h; rfl

/-- An array whose item types are listed takes no more bytes than a value may. -/
theorem fixedSize_le_of_repeated {item : Ty} {size : Nat} {ts : List Ty}
    (h : repeated item size = .ok ts) : (Ty.array item size).fixedSize ≤ Limits.valueBytes := by
  simp only [repeated] at h
  split at h
  · cases h
  · omega

end Ty

end Abi
