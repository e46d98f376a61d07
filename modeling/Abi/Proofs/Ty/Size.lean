/-
  Sizes as lower bounds: what is encoded is never shorter than the size of its type.

  The size of a dynamic type counts the heads of all its descendants, which its bytes contain
  behind offsets of their own; so the bound holds for dynamic types too, but is not sharp.

  * `sizeOfItems_eq_headSize`: a row is as long as its items together, clamped once.
  * `sizeOfItems_le_of_encode`: if no value is shorter than its type, then neither is a sequence
    of them shorter than the row of their types.
  * `fixedSize_array_le_of_encode`: nor is it shorter than an array, whose size is a product.
  * `sizeOfItems_of_static`: the row of static types is just as long as its head.
-/
import Abi.Proofs.Layout.Head
import Abi.Proofs.Sequence.RoundTrip
import Abi.Proofs.Ty.Components

namespace Abi.Ty

/-! ## Rows -/

/-- The room of a type of which all of `size` counts: a boolean still shares bytes, but a dynamic
type takes no offset instead. -/
def countedSlot (t : Ty) (size : Nat) : Layout.Slot := if t.isBool then .bit else .inline size

/-- Clamping after every item comes to the same as clamping the whole row, and it makes no
difference whether the items are clamped themselves. -/
theorem sizeOfItems_eq_headSize {size : Ty → Nat} {ts : List Ty}
    (h : ∀ t ∈ ts, min t.fixedSize Limits.size = min (size t) Limits.size) (free : Nat) :
    sizeOfItems free ts =
      min (Layout.headSize free (ts.map fun t => t.countedSlot (size t))) Limits.size := by
  induction ts generalizing free with
  | nil => exact (Nat.zero_min _).symm
  | cons t ts ih =>
    rw [List.forall_mem_cons] at h
    rw [List.map_cons, countedSlot]
    by_cases hb : t.isBool = true
    · rw [if_pos hb, isBool_iff.1 hb]
      cases free with
      | zero =>
        rw [sizeOfItems, Layout.headSize, ih h.2]
        unfold clampedAdd
        omega
      | succ free =>
        rw [sizeOfItems, Layout.headSize]
        exact ih h.2 free
    · have hsize := h.1
      rw [if_neg hb, sizeOfItems_cons_of_not_bool (by simpa using hb), Layout.headSize, ih h.2]
      unfold clampedAdd
      omega

theorem sizeOfItems_replicate {item : Ty} (h : item.isBool = false) (free count : Nat) :
    sizeOfItems free (List.replicate count item) = clampedMul item.fixedSize count := by
  rw [sizeOfItems_eq_headSize (fun _ _ => rfl), List.map_replicate, countedSlot,
    if_neg (by simp [h]), Layout.headSize_replicate_inline, clampedMul]

/-- A row of static types takes the bytes of its head, clamped. -/
theorem sizeOfItems_of_static {ts : List Ty} (h : ∀ t ∈ ts, t.isDynamic = false) (free : Nat) :
    sizeOfItems free ts = min (Layout.headSize free (ts.map slot)) Limits.size := by
  have hslots : ts.map slot = ts.map fun t => t.countedSlot t.fixedSize := by
    refine List.map_congr_left fun t ht => ?_
    rw [slot, countedSlot, h t ht]
    rfl
  rw [hslots]
  exact sizeOfItems_eq_headSize (fun _ _ => rfl) free

/-! ## Sequences -/

theorem fixedSize_of_slot {t : Ty} {size : Nat} (h : t.slot = .inline size) :
    t.fixedSize = size := by
  unfold slot at h
  split at h
  · cases h
  · split at h
    · cases h
    · exact Layout.Slot.inline.inj h

/-- Head and tails of a sequence hold the row of its types. -/
theorem sizeOfItems_le_of_parts {vs : List Value} {ps : List Layout.Part} (free : Nat)
    (hp : vs.mapM Value.part = .ok ps) (hv : ∀ v ∈ vs, v.ty.fixedSize ≤ v.bytes.length) :
    sizeOfItems free (vs.map (·.ty)) ≤
      Layout.headSize free (ps.map Layout.Part.slot) + (Layout.tails ps).flatten.length := by
  rw [Outcome.mapM_eq_ok_iff] at hp
  induction hp generalizing free with
  | nil => exact Nat.zero_le _
  | @cons v p vs ps hp _ ih =>
    have hlow : v.ty.fixedSize ≤ v.bytes.length := hv v (List.mem_cons_self ..)
    have ih := fun free => ih free fun w hw => hv w (List.mem_cons_of_mem _ hw)
    have hnot : v.ty.slot ≠ .bit → v.ty.isBool = false := fun h => by
      simpa using mt slot_eq_bit_iff.2 h
    have hadd : clampedAdd v.ty.fixedSize (sizeOfItems 0 (vs.map (·.ty))) ≤
        v.ty.fixedSize + sizeOfItems 0 (vs.map (·.ty)) := Nat.min_le_left _ _
    have ih0 := ih 0
    rw [List.map_cons, List.map_cons, Value.slot_of_part hp]
    rcases Value.part_eq_ok_iff.1 hp with ⟨hs, b, _, rfl⟩ | ⟨hs, rfl⟩ | ⟨hs, rfl⟩
    · rw [hs, isBool_iff.1 (slot_eq_bit_iff.1 hs)]
      cases free with
      | zero =>
        have ih7 := ih (Limits.boolsPerByte - 1)
        rw [sizeOfItems, Layout.headSize, Layout.tails]
        unfold clampedAdd
        omega
      | succ free =>
        rw [sizeOfItems, Layout.headSize, Layout.tails]
        exact ih free
    · rw [sizeOfItems_cons_of_not_bool (hnot (by simp [hs])), hs, Layout.headSize, Layout.tails,
        List.flatten_cons, List.length_append]
      omega
    · have hsize := fixedSize_of_slot hs
      rw [sizeOfItems_cons_of_not_bool (hnot (by simp [hs])), hs, Layout.headSize, Layout.tails]
      omega

/-- A sequence of values that are not shorter than their types is not shorter than the row of
these types. -/
theorem sizeOfItems_le_of_encode {vs : List Value} {bs : Bytes} (h : Sequence.encode vs = .ok bs)
    (hv : ∀ v ∈ vs, v.ty.fixedSize ≤ v.bytes.length) :
    sizeOfItems 0 (vs.map (·.ty)) ≤ bs.length := by
  obtain ⟨ps, hp, ha⟩ := Sequence.encode_eq_ok_iff.1 h
  rw [Layout.length_of_assemble ha]
  exact sizeOfItems_le_of_parts 0 hp hv

/-- The same for values of one type, whose size is a product. -/
theorem fixedSize_array_le_of_encode {item : Ty} {size : Nat} {vs : List Value} {bs : Bytes}
    (h : Sequence.encode vs = .ok bs) (hty : vs.map (·.ty) = List.replicate size item)
    (hv : ∀ v ∈ vs, v.ty.fixedSize ≤ v.bytes.length) : (array item size).fixedSize ≤ bs.length := by
  unfold fixedSize
  split
  · rename_i hb
    have hslots : vs.map (·.ty.slot) = List.replicate size .bit := by
      rw [← slot_eq_bit_iff.2 hb, ← List.map_replicate, ← hty, List.map_map]
      rfl
    rw [Sequence.length_of_encode h, hslots, Layout.headSize_replicate_bit (by decide)]
    exact Nat.le_add_right _ _
  · rename_i hb
    rw [← sizeOfItems_replicate (by simpa using hb) 0, ← hty]
    exact sizeOfItems_le_of_encode h hv

/-! ## Arrays that are not refused -/

theorem repeated_eq_ok {item : Ty} {size : Nat} (hs : size ≤ Limits.word)
    (hf : (array item size).fixedSize ≤ Limits.valueBytes) :
    repeated item size = .ok (List.replicate size item) := by
  unfold repeated
  rw [if_neg (by omega)]

/-- Where every item takes room, no value has room for more items than a word can count. -/
theorem size_le_of_fixedSize_array {item : Ty} {size : Nat} (hi : item.fixedSize ≠ 0)
    (h : (array item size).fixedSize ≤ Limits.valueBytes) : size ≤ Limits.word := by
  unfold Limits.word
  unfold fixedSize at h
  split at h
  · unfold packedBytes Limits.boolsPerByte Limits.valueBytes at h
    omega
  · have hmul : size ≤ item.fixedSize * size := Nat.le_mul_of_pos_left size (by omega)
    unfold clampedMul Limits.valueBytes Limits.size at h
    omega

end Abi.Ty
