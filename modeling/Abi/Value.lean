/-
  Encoded values: bytes together with their type.
-/
import Abi.Bytes
import Abi.Ty.Name

namespace Abi

/-- A type and bytes that stand for a value of it. Nothing is promised about the bytes: they are
checked when the value is read. -/
structure Value where
  ty : Ty
  bytes : Bytes

namespace Value

/-- A value of bytes that were just made, unless they are too many. -/
def limited (ty : Ty) (bytes : Bytes) : Except Error Value :=
  if Limits.valueBytes < bytes.length then
    .error (.oversize (.value ty.name bytes.length))
  else .ok ⟨ty, bytes⟩

/-- The value has the given type. -/
def HasTy (v : Value) (ty : Ty) : Prop := v.ty.Same ty

instance (v : Value) (ty : Ty) : Decidable (v.HasTy ty) := inferInstanceAs (Decidable (Ty.Same _ _))

/-- Fails unless the value has the given type. -/
def expect (v : Value) (ty : Ty) : Except Error Unit :=
  if v.HasTy ty then .ok () else .error (.mismatch ty.name v.ty.name)

/-- Fails at the first value that does not have the given type. -/
def expectAll (vs : List Value) (ty : Ty) : Except Error Unit := vs.forM (·.expect ty)

/-- The values have the same type and the same bytes. -/
def Same (v w : Value) : Prop := v.ty.Same w.ty ∧ v.bytes = w.bytes

instance (v w : Value) : Decidable (v.Same w) := inferInstanceAs (Decidable (_ ∧ _))

/-- The value for a log: its type and its bytes. -/
def describe (v : Value) : String := s!"Arc4Value({v.ty.name}, {v.bytes.marked})"

theorem limited_eq_ok_iff {ty : Ty} {bs : Bytes} {v : Value} :
    limited ty bs = .ok v ↔ bs.length ≤ Limits.valueBytes ∧ v = ⟨ty, bs⟩ := by
  simp only [limited]
  split
  · simp only [reduceCtorEq, false_iff, not_and]
    omega
  · simp only [Except.ok.injEq, eq_comm, iff_and_self]
    omega

theorem expect_eq_ok_iff {v : Value} {ty : Ty} : v.expect ty = .ok () ↔ v.HasTy ty := by
  simp only [expect]
  split <;> simp [*]

theorem expect_eq_error_iff {v : Value} {ty : Ty} {e : Error} :
    v.expect ty = .error e ↔ ¬ v.HasTy ty ∧ e = .mismatch ty.name v.ty.name := by
  simp only [expect]
  split <;> simp [*, eq_comm]

end Value

end Abi
