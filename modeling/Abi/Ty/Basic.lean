/-
  The types of the format, and which of them are dynamic.

  A struct is a tuple whose items have names: it is laid out as the tuple of its field types.
-/
import Abi.Error

namespace Abi

/-- A type of the format. -/
inductive Ty where
  /-- An unsigned integer of `width` bits. -/
  | uint (width : Nat)
  /-- A byte: laid out as an integer of eight bits, under a name of its own. -/
  | byte
  /-- A truth value. -/
  | bool
  /-- An unsigned decimal with `precision` places, stored as an integer of `width` bits. -/
  | ufixed (width precision : Nat)
  /-- `size` items of one type. -/
  | array (item : Ty) (size : Nat)
  /-- An account address of 32 bytes. -/
  | address
  /-- Any number of items of one type, behind their count. -/
  | list (item : Ty)
  /-- Items of the given types. -/
  | tuple (items : List Ty)
  /-- Named fields, in order; those of a frozen struct are never assigned. -/
  | struct (name : String) (fields : List (String × Ty)) (frozen : Bool)
  /-- A text in UTF-8, behind its length in bytes. -/
  | string

namespace Ty

/-- Induction over types; each item of a tuple and each field of a struct comes with its
hypothesis. -/
@[elab_as_elim]
theorem induction {motive : Ty → Prop}
    (uint : ∀ width, motive (.uint width)) (byte : motive .byte) (bool : motive .bool)
    (ufixed : ∀ width precision, motive (.ufixed width precision))
    (array : ∀ item size, motive item → motive (.array item size))
    (address : motive .address) (list : ∀ item, motive item → motive (.list item))
    (tuple : ∀ items, (∀ t ∈ items, motive t) → motive (.tuple items))
    (struct : ∀ name fields frozen, (∀ f ∈ fields, motive f.2) →
      motive (.struct name fields frozen))
    (string : motive .string) (t : Ty) : motive t :=
  @Ty.rec motive (fun items => ∀ t ∈ items, motive t) (fun fields => ∀ f ∈ fields, motive f.2)
    (fun f => motive f.2) uint byte bool ufixed array address list tuple struct string
    (fun _ h => absurd h List.not_mem_nil)
    (fun _ _ hd tl t ht => (List.mem_cons.1 ht).elim (fun e => e ▸ hd) (tl t))
    (fun _ h => absurd h List.not_mem_nil)
    (fun _ _ hd tl f hf => (List.mem_cons.1 hf).elim (fun e => e ▸ hd) (tl f))
    (fun _ _ h => h) t

/-! ## Equality -/

mutual

/-- The two types are equal, in every field name too. -/
def beq : Ty → Ty → Bool
  | .uint m, .uint n => m = n
  | .byte, .byte | .bool, .bool | .address, .address | .string, .string => true
  | .ufixed m p, .ufixed n q => m = n && p = q
  | .array s m, .array t n => beq s t && m = n
  | .list s, .list t => beq s t
  | .tuple ss, .tuple ts => beqItems ss ts
  | .struct m fs a, .struct n gs b => m = n && beqFields fs gs && a = b
  | _, _ => false

/-- The types are equal one by one. -/
def beqItems : List Ty → List Ty → Bool
  | [], [] => true
  | s :: ss, t :: ts => beq s t && beqItems ss ts
  | _, _ => false

/-- The fields are equal one by one, in name and type. -/
def beqFields : List (String × Ty) → List (String × Ty) → Bool
  | [], [] => true
  | (f, s) :: fs, (g, t) :: gs => f = g && beq s t && beqFields fs gs
  | _, _ => false

end

mutual

theorem beq_iff_eq (s t : Ty) : beq s t = true ↔ s = t := by
  cases s <;> cases t <;> simp only [beq, reduceCtorEq, decide_eq_true_eq, Bool.false_eq_true,
    Bool.and_eq_true, uint.injEq, ufixed.injEq, array.injEq, list.injEq, tuple.injEq,
    struct.injEq]
  · rw [beq_iff_eq]
  · rw [beq_iff_eq]
  · exact beqItems_iff_eq _ _
  · rw [beqFields_iff_eq, and_assoc]

theorem beqItems_iff_eq (ss ts : List Ty) : beqItems ss ts = true ↔ ss = ts := by
  match ss, ts with
  | [], [] => simp [beqItems]
  | [], _ :: _ => simp [beqItems]
  | _ :: _, [] => simp [beqItems]
  | s :: ss, t :: ts => simp [beqItems, beq_iff_eq s t, beqItems_iff_eq ss ts]

theorem beqFields_iff_eq (fs gs : List (String × Ty)) : beqFields fs gs = true ↔ fs = gs := by
  match fs, gs with
  | [], [] => simp [beqFields]
  | [], _ :: _ => simp [beqFields]
  | _ :: _, [] => simp [beqFields]
  | (f, s) :: fs, (g, t) :: gs =>
    simp [beqFields, beq_iff_eq s t, beqFields_iff_eq fs gs, and_assoc]

end

instance : DecidableEq Ty := fun s t => decidable_of_iff _ (beq_iff_eq s t)

/-! ## Kinds of types -/

/-- Raw bytes behind their count. -/
def bytes : Ty := .list .byte

/-- The type is the one of truth values, which share bytes with their neighbours. -/
def isBool : Ty → Bool
  | .bool => true
  | _ => false

mutual

/-- The length of an encoding depends on the value. -/
def isDynamic : Ty → Bool
  | .string | .list _ => true
  | .array item _ => item.isDynamic
  | .tuple items => anyDynamic items
  | .struct _ fields _ => anyFieldDynamic fields
  | .uint _ | .byte | .bool | .ufixed _ _ | .address => false

/-- One of the types is dynamic. -/
def anyDynamic : List Ty → Bool
  | [] => false
  | t :: ts => t.isDynamic || anyDynamic ts

/-- One of the fields has a dynamic type. -/
def anyFieldDynamic : List (String × Ty) → Bool
  | [] => false
  | (_, t) :: fs => t.isDynamic || anyFieldDynamic fs

end

theorem anyDynamic_eq_any (ts : List Ty) : anyDynamic ts = ts.any isDynamic := by
  induction ts with
  | nil => rfl
  | cons t ts ih => simp [anyDynamic, ih]

theorem anyFieldDynamic_eq (fs : List (String × Ty)) :
    anyFieldDynamic fs = anyDynamic (fs.map (·.2)) := by
  induction fs with
  | nil => rfl
  | cons f fs ih => simp [anyFieldDynamic, anyDynamic, ih]

/-! ## Parameters -/

/-- A width that the format has: whole bytes, at least one and at most 64 of them. -/
def IsWidth (width : Nat) : Prop := width % 8 = 0 ∧ 0 < width ∧ width ≤ Limits.width

instance (width : Nat) : Decidable (IsWidth width) := inferInstanceAs (Decidable (_ ∧ _ ∧ _))

/-- A number of decimal places that the format has. -/
def IsPrecision (precision : Nat) : Prop := 0 < precision ∧ precision ≤ Limits.precision

instance (precision : Nat) : Decidable (IsPrecision precision) :=
  inferInstanceAs (Decidable (_ ∧ _))

/-- The integer type of a width that the format has. -/
def ofWidth (width : Nat) : Except Error Ty :=
  if IsWidth width then .ok (.uint width) else .error (.badType (.width width))

/-- The fixed-point type of a width and a precision that the format has. -/
def ofPrecision (width precision : Nat) : Except Error Ty :=
  if ¬ IsWidth width then .error (.badType (.width width))
  else if ¬ IsPrecision precision then .error (.badType (.precision precision))
  else .ok (.ufixed width precision)

theorem ofWidth_eq_ok_iff {width : Nat} {t : Ty} :
    ofWidth width = .ok t ↔ IsWidth width ∧ t = .uint width := by
  simp only [ofWidth]
  split <;> simp [*, eq_comm]

theorem ofPrecision_eq_ok_iff {width precision : Nat} {t : Ty} :
    ofPrecision width precision = .ok t ↔
      IsWidth width ∧ IsPrecision precision ∧ t = .ufixed width precision := by
  simp only [ofPrecision]
  split
  · simp [*]
  · split <;> simp_all [eq_comm]

end Ty

end Abi
