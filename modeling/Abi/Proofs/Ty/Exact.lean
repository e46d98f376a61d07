/-
  The size of a type without the clamp.

  `fixedSize` clamps every sum and every product on its way, and it counts booleans byte by byte in
  a tuple but divides their number in an array. Here the size is said in one way for all composite
  types and in numbers without a bound (`exactSize`): the items in a row, each maximal run of
  booleans in as many bytes as hold its bits. Clamping at each step comes to the same as clamping
  once, since sums and products only grow, and a product with zero is zero either way.

  * `clampedMul_min`: it makes no difference whether a factor is clamped.
  * `fixedSize_eq_min_exactSize`: the size is the exact one, clamped.
  * `fixedSize_clamps`: the same, and that an array is as large as the tuple of its items.
-/
import Abi.Proofs.Ty.Size

namespace Abi.Ty

open Layout (Slot headSize headWidth)

/-! ## Exact sizes -/

mutual

/-- The bytes of a type, in numbers without a bound: of a text or list the offset, and of the items
of any other composite type all bytes, where a maximal run of booleans takes as many as hold its
bits. -/
def exactSize : Ty → Nat
  | .uint width | .ufixed width _ => width / 8
  | .byte | .bool => 1
  | .array item size => headWidth (List.replicate size (item.countedSlot item.exactSize))
  | .address => Limits.addressBytes
  | .tuple items => headWidth (exactSlots items)
  | .struct _ fields _ => headWidth (exactSlotsOfFields fields)
  | .list _ | .string => Limits.wordBytes

/-- The room of each type in a row. -/
def exactSlots : List Ty → List Slot
  | [] => []
  | t :: ts => t.countedSlot t.exactSize :: exactSlots ts

/-- The room of the type of each field in a row. -/
def exactSlotsOfFields : List (String × Ty) → List Slot
  | [] => []
  | (_, t) :: fs => t.countedSlot t.exactSize :: exactSlotsOfFields fs

end

theorem exactSlots_eq (ts : List Ty) :
    exactSlots ts = ts.map fun t => t.countedSlot t.exactSize := by
  induction ts with
  | nil => rfl
  | cons t ts ih => rw [exactSlots, ih, List.map_cons]

theorem exactSlotsOfFields_eq (fs : List (String × Ty)) :
    exactSlotsOfFields fs = exactSlots (fs.map (·.2)) := by
  induction fs with
  | nil => rfl
  | cons f fs ih => rw [exactSlotsOfFields, ih, List.map_cons, exactSlots]

/-- The parameters of the type are numbers that are told apart. -/
def Bounded : Ty → Prop
  | .uint width | .ufixed width _ => width ≤ Limits.size
  | .array _ size => size ≤ Limits.size
  | .byte | .bool | .address | .list _ | .tuple _ | .struct _ _ _ | .string => True

instance : DecidablePred Bounded
  | .uint _ | .ufixed _ _ | .array _ _ => inferInstanceAs (Decidable (_ ≤ _))
  | .byte | .bool | .address | .list _ | .tuple _ | .struct _ _ _ | .string =>
    inferInstanceAs (Decidable True)

/-! ## Clamping -/

theorem packedBytes_le (count : Nat) : packedBytes count ≤ count := by
  unfold packedBytes Limits.boolsPerByte
  omega

/-- A factor that is clamped makes a product that is clamped, unless the other one is zero. -/
theorem clampedMul_min (size count : Nat) :
    clampedMul (min size Limits.size) count = min (size * count) Limits.size := by
  unfold clampedMul
  rcases Nat.le_total size Limits.size with h | h
  · rw [Nat.min_eq_left h]
  · rw [Nat.min_eq_right h]
    cases count with
    | zero => rfl
    | succ count =>
      have hle : Limits.size ≤ Limits.size * (count + 1) := Nat.le_mul_of_pos_right _ count.succ_pos
      have hmul : Limits.size * (count + 1) ≤ size * (count + 1) := Nat.mul_le_mul_right _ h
      rw [Nat.min_eq_right hle, Nat.min_eq_right (Nat.le_trans hle hmul)]

/-- A row is as large as its items together, clamped. -/
theorem sizeOfItems_eq_exactSlots {ts : List Ty}
    (h : ∀ t ∈ ts, t.fixedSize = min t.exactSize Limits.size) :
    sizeOfItems 0 ts = min (headWidth (exactSlots ts)) Limits.size := by
  have hmin : ∀ t ∈ ts, min t.fixedSize Limits.size = min t.exactSize Limits.size := by
    intro t ht
    rw [h t ht, Nat.min_assoc, Nat.min_self]
  rw [sizeOfItems_eq_headSize hmin, Layout.headSize_eq_headWidth, exactSlots_eq]

/-- Whatever is clamped on the way, the size is the exact one, clamped. -/
theorem fixedSize_eq_min_exactSize {t : Ty} (h : t.Every Bounded) :
    t.fixedSize = min t.exactSize Limits.size := by
  have hword : Limits.addressBytes ≤ Limits.size ∧ Limits.wordBytes ≤ Limits.size := by decide
  induction t using Ty.induction with
  | uint width =>
    have hw : width ≤ Limits.size := h.self
    exact (Nat.min_eq_left (Nat.le_trans (Nat.div_le_self _ _) hw)).symm
  | ufixed width precision =>
    have hw : width ≤ Limits.size := h.self
    exact (Nat.min_eq_left (Nat.le_trans (Nat.div_le_self _ _) hw)).symm
  | byte => rfl
  | bool => rfl
  | address => exact (Nat.min_eq_left hword.1).symm
  | list item ih => exact (Nat.min_eq_left hword.2).symm
  | string => exact (Nat.min_eq_left hword.2).symm
  | array item size ih =>
    obtain ⟨hs, hi⟩ := every_array.1 h
    rw [fixedSize, exactSize, countedSlot]
    cases hb : item.isBool with
    | true =>
      rw [if_pos rfl, if_pos rfl, Layout.headWidth_run]
      exact (Nat.min_eq_left (Nat.le_trans (packedBytes_le size) hs)).symm
    | false =>
      rw [if_neg (by decide), if_neg (by decide), ← Layout.headSize_eq_headWidth,
        Layout.headSize_replicate_inline, ih hi, clampedMul_min]
  | tuple items ih =>
    have hi := (every_tuple.1 h).2
    exact sizeOfItems_eq_exactSlots fun t ht => ih t ht (hi t ht)
  | struct name fields frozen ih =>
    have hf := (every_struct.1 h).2
    rw [fixedSize, exactSize, sizeOfFields_eq, exactSlotsOfFields_eq]
    exact sizeOfItems_eq_exactSlots (List.forall_mem_map.2 fun f hm => ih f hm (hf f hm))

/-- Booleans are counted in two ways, which agree as long as their number is not clamped. -/
theorem fixedSize_array_eq_tuple {item : Ty} {count : Nat} (hc : count ≤ Limits.size) :
    (array item count).fixedSize = (tuple (List.replicate count item)).fixedSize := by
  show (array item count).fixedSize = sizeOfItems 0 (List.replicate count item)
  rw [fixedSize]
  cases hb : item.isBool with
  | true =>
    have hle := Nat.le_trans (packedBytes_le count) hc
    rw [if_pos rfl, sizeOfItems_eq_headSize (fun _ _ => rfl), List.map_replicate, countedSlot,
      if_pos hb, Layout.headSize_eq_headWidth, Layout.headWidth_run, Nat.min_eq_left hle]
  | false => rw [if_neg (by decide), sizeOfItems_replicate hb]

/-- The size of a type is its exact size, clamped once. So an array is as large as the tuple of its
items, however many they are. -/
theorem fixedSize_clamps :
    (∀ t : Ty, t.Every Bounded → t.fixedSize = min t.exactSize Limits.size) ∧
      ∀ (item : Ty) (count : Nat), count ≤ Limits.size →
        (array item count).fixedSize = (tuple (List.replicate count item)).fixedSize :=
  ⟨fun _ h => fixedSize_eq_min_exactSize h, fun _ _ hc => fixedSize_array_eq_tuple hc⟩

/-- Numbers that take more bytes than can be told apart have the largest size, and so has every
tuple with them; none of them take none, whatever was clamped before. -/
theorem fixedSize_clamps_huge :
    let huge : Ty := .array (.uint 64) 3000000000000000000
    let pair : Ty := .tuple [huge, .byte]
    let few : Ty := .tuple [.array huge 0, .bool, .bool, .uint 16]
    (pair.Every Bounded ∧ pair.fixedSize = Limits.size ∧ Limits.size ≤ pair.exactSize) ∧
      (few.Every Bounded ∧ few.fixedSize = 3 ∧ few.exactSize = 3) ∧
      (array .bool Limits.size).fixedSize =
        (tuple (List.replicate Limits.size .bool)).fixedSize := by
  intro huge pair few
  have hpair : pair.Every Bounded := by decide
  have hfew : few.Every Bounded := by decide
  have hclamped : pair.fixedSize = Limits.size := by decide +kernel
  have hthree : few.fixedSize = 3 := by decide +kernel
  have hlarge := fixedSize_clamps.1 pair hpair
  have hsmall := fixedSize_clamps.1 few hfew
  have harray := fixedSize_clamps.2 .bool Limits.size (Nat.le_refl _)
  have hlt : 3 < Limits.size := by decide
  exact ⟨⟨hpair, hclamped, by omega⟩, ⟨hfew, hthree, by omega⟩, harray⟩

end Abi.Ty
