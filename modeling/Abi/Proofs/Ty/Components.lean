/-
  The types that a type is made of, and the type without its structs.

  A condition on a type is most often one on each of its components (`Every`): that the widths are
  good, that no array is too large, that no struct occurs. `asTuples` replaces every struct by the
  tuple of its field types; name and layout do not see the difference.
-/
import Abi.Sequence
import Mathlib.Data.List.Forall2

namespace Abi.Ty

/-! ## Components -/

mutual

/-- The type itself and all types that it is made of. -/
def components : Ty → List Ty
  | .array item size => .array item size :: item.components
  | .list item => .list item :: item.components
  | .tuple items => .tuple items :: componentsOfItems items
  | .struct name fields frozen => .struct name fields frozen :: componentsOfFields fields
  | .uint width => [.uint width]
  | .byte => [.byte]
  | .bool => [.bool]
  | .ufixed width precision => [.ufixed width precision]
  | .address => [.address]
  | .string => [.string]

/-- The components of several types. -/
def componentsOfItems : List Ty → List Ty
  | [] => []
  | t :: ts => t.components ++ componentsOfItems ts

/-- The components of the types of several fields. -/
def componentsOfFields : List (String × Ty) → List Ty
  | [] => []
  | (_, t) :: fs => t.components ++ componentsOfFields fs

end

theorem componentsOfItems_eq (ts : List Ty) : componentsOfItems ts = ts.flatMap components := by
  induction ts with
  | nil => rfl
  | cons t ts ih => rw [componentsOfItems, ih, List.flatMap_cons]

theorem componentsOfFields_eq (fs : List (String × Ty)) :
    componentsOfFields fs = fs.flatMap (·.2.components) := by
  induction fs with
  | nil => rfl
  | cons f fs ih => rw [componentsOfFields, ih, List.flatMap_cons]

/-- Every component of the type meets a condition. -/
def Every (p : Ty → Prop) (t : Ty) : Prop := ∀ s ∈ t.components, p s

instance (p : Ty → Prop) [DecidablePred p] (t : Ty) : Decidable (t.Every p) :=
  inferInstanceAs (Decidable (∀ s ∈ _, p s))

variable {p q : Ty → Prop}

theorem every_array {item : Ty} {size : Nat} :
    (array item size).Every p ↔ p (array item size) ∧ item.Every p := List.forall_mem_cons

theorem every_list {item : Ty} : (list item).Every p ↔ p (list item) ∧ item.Every p :=
  List.forall_mem_cons

theorem every_tuple {items : List Ty} :
    (tuple items).Every p ↔ p (tuple items) ∧ ∀ t ∈ items, t.Every p := by
  unfold Every
  rw [components, componentsOfItems_eq, List.forall_mem_cons, List.forall_mem_flatMap]

theorem every_struct {name : String} {fields : List (String × Ty)} {frozen : Bool} :
    (struct name fields frozen).Every p ↔
      p (struct name fields frozen) ∧ ∀ f ∈ fields, f.2.Every p := by
  unfold Every
  rw [components, componentsOfFields_eq, List.forall_mem_cons, List.forall_mem_flatMap]

/-- A type is a component of itself. -/
theorem self_mem_components (t : Ty) : t ∈ t.components := by
  cases t <;> simp [components]

theorem Every.self {t : Ty} (h : t.Every p) : p t := h t t.self_mem_components

/-! ## Without structs -/

mutual

/-- The type with every struct replaced by the tuple of its field types. -/
def asTuples : Ty → Ty
  | .array item size => .array item.asTuples size
  | .list item => .list item.asTuples
  | .tuple items => .tuple (asTuplesOfItems items)
  | .struct _ fields _ => .tuple (asTuplesOfFields fields)
  | .uint width => .uint width
  | .byte => .byte
  | .bool => .bool
  | .ufixed width precision => .ufixed width precision
  | .address => .address
  | .string => .string

/-- The types without their structs. -/
def asTuplesOfItems : List Ty → List Ty
  | [] => []
  | t :: ts => t.asTuples :: asTuplesOfItems ts

/-- The types of the fields without their structs. -/
def asTuplesOfFields : List (String × Ty) → List Ty
  | [] => []
  | (_, t) :: fs => t.asTuples :: asTuplesOfFields fs

end

theorem asTuplesOfItems_eq (ts : List Ty) : asTuplesOfItems ts = ts.map asTuples := by
  induction ts with
  | nil => rfl
  | cons t ts ih => rw [asTuplesOfItems, ih, List.map_cons]

theorem asTuplesOfFields_eq (fs : List (String × Ty)) :
    asTuplesOfFields fs = fs.map (·.2.asTuples) := by
  induction fs with
  | nil => rfl
  | cons f fs ih => rw [asTuplesOfFields, ih, List.map_cons]

theorem asTuples_tuple (items : List Ty) : (tuple items).asTuples = tuple (items.map asTuples) := by
  rw [asTuples, asTuplesOfItems_eq]

theorem asTuples_struct (name : String) (fields : List (String × Ty)) (frozen : Bool) :
    (struct name fields frozen).asTuples = tuple (fields.map (·.2.asTuples)) := by
  rw [asTuples, asTuplesOfFields_eq]

/-- The type is a struct. -/
def isStruct : Ty → Bool
  | .struct _ _ _ => true
  | _ => false

/-- No struct is left. -/
theorem every_not_struct_asTuples (t : Ty) : t.asTuples.Every fun s => s.isStruct = false := by
  induction t using Ty.induction with
  | array item size ih => exact every_array.2 ⟨rfl, ih⟩
  | list item ih => exact every_list.2 ⟨rfl, ih⟩
  | tuple items ih =>
    rw [asTuples_tuple, every_tuple]
    exact ⟨rfl, List.forall_mem_map.2 ih⟩
  | struct name fields frozen ih =>
    rw [asTuples_struct, every_tuple]
    exact ⟨rfl, List.forall_mem_map.2 ih⟩
  | _ => exact fun s hs => List.mem_singleton.1 hs ▸ rfl

/-! ## Layout -/

theorem isBool_iff {t : Ty} : t.isBool = true ↔ t = .bool := by
  cases t <;> simp [isBool]

theorem isBool_asTuples (t : Ty) : t.asTuples.isBool = t.isBool := by
  cases t <;> rfl

/-- Whether one of the types is dynamic depends on which of them are. -/
theorem anyDynamic_congr {ss ts : List Ty} (h : ss.map isDynamic = ts.map isDynamic) :
    anyDynamic ss = anyDynamic ts := by
  rw [anyDynamic_eq_any, anyDynamic_eq_any]
  simpa using congrArg (List.any · id) h

/-- The items of a static tuple are static. -/
theorem isDynamic_tuple_eq_false_iff {items : List Ty} :
    (tuple items).isDynamic = false ↔ ∀ t ∈ items, t.isDynamic = false := by
  rw [isDynamic, anyDynamic_eq_any, List.any_eq_false]
  simp

/-- And so are the fields of a static struct. -/
theorem isDynamic_struct_eq_false_iff {name : String} {fields : List (String × Ty)}
    {frozen : Bool} :
    (struct name fields frozen).isDynamic = false ↔
      ∀ t ∈ fields.map (·.2), t.isDynamic = false := by
  rw [isDynamic, anyFieldDynamic_eq, anyDynamic_eq_any, List.any_eq_false]
  simp

theorem isDynamic_asTuples (t : Ty) : t.asTuples.isDynamic = t.isDynamic := by
  induction t using Ty.induction with
  | array item size ih => exact ih
  | list item ih => rfl
  | tuple items ih =>
    rw [asTuples_tuple]
    apply anyDynamic_congr
    rw [List.map_map]
    exact List.map_congr_left ih
  | struct name fields frozen ih =>
    rw [asTuples_struct, isDynamic, isDynamic, anyFieldDynamic_eq]
    apply anyDynamic_congr
    rw [List.map_map, List.map_map]
    exact List.map_congr_left ih
  | _ => rfl

theorem sizeOfItems_cons_of_not_bool {t : Ty} (h : t.isBool = false) (free : Nat) (ts : List Ty) :
    sizeOfItems free (t :: ts) = clampedAdd t.fixedSize (sizeOfItems 0 ts) := by
  cases t
  case bool => cases h
  all_goals rfl

/-- The size of a row depends on which items are booleans and on the sizes of the others. -/
theorem sizeOfItems_congr {ss ts : List Ty} (free : Nat)
    (h : List.Forall₂ (fun s t => s.isBool = t.isBool ∧ s.fixedSize = t.fixedSize) ss ts) :
    sizeOfItems free ss = sizeOfItems free ts := by
  induction h generalizing free with
  | nil => rfl
  | @cons s t ss ts hst _ ih =>
    by_cases hb : s.isBool = true
    · obtain rfl := isBool_iff.1 hb
      obtain rfl := isBool_iff.1 (hst.1.symm.trans hb)
      cases free with
      | zero => rw [sizeOfItems, sizeOfItems, ih]
      | succ free => rw [sizeOfItems, sizeOfItems, ih]
    · have hs : s.isBool = false := by simpa using hb
      rw [sizeOfItems_cons_of_not_bool hs, sizeOfItems_cons_of_not_bool (hst.1 ▸ hs), hst.2, ih]

theorem fixedSize_asTuples (t : Ty) : t.asTuples.fixedSize = t.fixedSize := by
  induction t using Ty.induction with
  | array item size ih =>
    rw [asTuples, fixedSize, fixedSize, isBool_asTuples, ih]
  | list item ih => rfl
  | tuple items ih =>
    rw [asTuples_tuple]
    apply sizeOfItems_congr
    rw [List.forall₂_map_left_iff, List.forall₂_same]
    exact fun t ht => ⟨isBool_asTuples t, ih t ht⟩
  | struct name fields frozen ih =>
    rw [asTuples_struct, fixedSize, fixedSize, sizeOfFields_eq]
    apply sizeOfItems_congr
    rw [List.forall₂_map_left_iff, List.forall₂_map_right_iff, List.forall₂_same]
    exact fun f hf => ⟨isBool_asTuples f.2, ih f hf⟩
  | _ => rfl

/-- Structs and tuples take the same room in the head of their parent. -/
theorem slot_asTuples (t : Ty) : t.asTuples.slot = t.slot := by
  unfold slot
  rw [isBool_asTuples, isDynamic_asTuples, fixedSize_asTuples]

end Abi.Ty
