/-
  Struct types: named fields in the order in which they are laid out.

  `declare_isOk_iff`: a declaration is accepted exactly if its field names differ.
-/
import Abi.Ty.Name

namespace Abi

/-- The declaration of a struct. -/
structure StructType where
  name : String
  fields : List (String × Ty)
  frozen : Bool := false
deriving DecidableEq

namespace StructType

/-- The first name that an earlier one repeats. -/
def duplicate? (seen : List String) : List String → Option String
  | [] => none
  | f :: fs => if f ∈ seen then some f else duplicate? (f :: seen) fs

/-- Declares a struct; the names of its fields have to differ. -/
def declare (name : String) (fields : List (String × Ty)) (frozen : Bool) :
    Except Error StructType :=
  match duplicate? [] (fields.map (·.1)) with
  | some field => .error (.badType (.duplicateField field name))
  | none => .ok ⟨name, fields, frozen⟩

/-- The names of the fields. -/
def names (s : StructType) : List String := s.fields.map (·.1)

/-- The types of the fields. -/
def types (s : StructType) : List Ty := s.fields.map (·.2)

/-- The struct as a type. -/
def ty (s : StructType) : Ty := .struct s.name s.fields s.frozen

/-- The tuple that is laid out alike. -/
def asTuple (s : StructType) : Ty := .tuple s.types

/-- Where a field stands. -/
def indexOf (s : StructType) (field : String) : Except Error Nat :=
  match s.names.findIdx? (· = field) with
  | some i => .ok i
  | none => .error (.unknownField s.name field)

/-- Both declarations agree in every name and, by name, in every type. -/
def Same (s t : StructType) : Prop :=
  s.name = t.name ∧ s.names = t.names ∧ Ty.SameAll s.types t.types ∧ s.frozen = t.frozen

instance (s t : StructType) : Decidable (s.Same t) :=
  inferInstanceAs (Decidable (_ ∧ _ ∧ _ ∧ _))

theorem duplicate?_eq_none_iff {seen fs : List String} :
    duplicate? seen fs = none ↔ fs.Nodup ∧ ∀ f ∈ fs, f ∉ seen := by
  induction fs generalizing seen with
  | nil => simp [duplicate?]
  | cons f fs ih =>
    simp only [duplicate?]
    split
    · rename_i h
      simp [h]
    · rename_i h
      rw [ih, List.nodup_cons]
      constructor
      · rintro ⟨hn, hs⟩
        refine ⟨⟨fun hf => hs f hf (by simp), hn⟩, ?_⟩
        intro g hg
        rcases List.mem_cons.1 hg with rfl | hg
        · exact h
        · exact fun hgs => hs g hg (by simp [hgs])
      · rintro ⟨⟨hf, hn⟩, hs⟩
        refine ⟨hn, fun g hg => ?_⟩
        simp only [List.mem_cons, not_or]
        exact ⟨fun e => hf (e ▸ hg), hs g (by simp [hg])⟩

/-- A declaration is accepted exactly if its field names differ from each other. -/
theorem declare_isOk_iff {name : String} {fields : List (String × Ty)} {frozen : Bool} :
    (∃ s, declare name fields frozen = .ok s) ↔ (fields.map (·.1)).Nodup := by
  have h := @duplicate?_eq_none_iff [] (fields.map (·.1))
  simp only [List.not_mem_nil, not_false_eq_true, implies_true, and_true] at h
  rw [← h, declare]
  cases duplicate? [] (fields.map (·.1)) <;> simp

end StructType

end Abi
