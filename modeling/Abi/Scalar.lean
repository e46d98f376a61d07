/-
  Integers, truth values and addresses by themselves.
-/
import Abi.Address
import Abi.Layout.Split
import Abi.Numeral.BigEndian

namespace Abi.Scalar

/-- The bytes of an integer of `width` bits; `type` names the type in a complaint about a number
that needs more bits. -/
def writeUInt (type : String) (width n : Nat) : Except Error Bytes :=
  if n < 2 ^ width then .ok (BigEndian.encode (width / 8) n)
  else .error (.range type (toString n))

/-- The integer of `width` bits that the bytes denote. -/
def readUInt (width : Nat) (bs : Bytes) : Except Error Nat :=
  if bs.length = width / 8 ∧ width / 8 ≤ Limits.width / 8 then .ok (BigEndian.decode bs)
  else .error (.malformed (.uintLength width (width / 8) bs.length))

/-- The byte of a truth value by itself. -/
def writeBool (b : Bool) : Bytes := [Layout.boolByte b]

/-- The truth value of a single byte: true has a byte of its own, any other byte is false. -/
def readBool (bs : Bytes) : Except Error Bool :=
  match bs with
  | [b] => .ok (b = Limits.trueByte)
  | _ => .error (.malformed (.boolLength bs.length))

/-- The address that bytes stand for. -/
def readAddress (bs : Bytes) : Except Error Address :=
  if h : bs.length = Limits.addressBytes then .ok ⟨bs, h⟩
  else .error (.malformed (.addressLength bs.length))

theorem writeUInt_eq_ok_iff {type : String} {width n : Nat} {bs : Bytes} :
    writeUInt type width n = .ok bs ↔ n < 2 ^ width ∧ bs = BigEndian.encode (width / 8) n := by
  simp only [writeUInt]
  split <;> simp [*, eq_comm]

theorem readUInt_eq_ok_iff {width n : Nat} {bs : Bytes} :
    readUInt width bs = .ok n ↔
      bs.length = width / 8 ∧ width / 8 ≤ Limits.width / 8 ∧ n = BigEndian.decode bs := by
  simp only [readUInt]
  split
  · rename_i h
    simp [h, eq_comm]
  · rename_i h
    simp only [reduceCtorEq, false_iff]
    exact fun h' => h ⟨h'.1, h'.2.1⟩

@[simp] theorem readBool_writeBool (b : Bool) : readBool (writeBool b) = .ok b := by
  cases b <;> rfl

theorem readAddress_eq_ok_iff {bs : Bytes} {a : Address} :
    readAddress bs = .ok a ↔ bs = a.bytes := by
  simp only [readAddress]
  split
  · simp [Address.ext_iff, eq_comm]
  · rename_i h
    simp only [reduceCtorEq, false_iff]
    rintro rfl
    exact h a.length_bytes

end Abi.Scalar
