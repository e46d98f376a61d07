/-
  Words: the two bytes that hold a length or an offset.
-/
import Abi.Error
import Abi.Numeral.BigEndian

namespace Abi.Word

/-- The number itself, if a word can hold it. -/
def fit (n : Nat) : Except Error Nat :=
  if n ≤ Limits.word then .ok n else .error (.oversize (.word n))

/-- The bytes of a number that a word can hold. -/
def bytes (n : Nat) : Bytes := BigEndian.encode Limits.wordBytes n

/-- A body behind its count. -/
def counted (count : Nat) (body : Bytes) : Except Error Bytes := do
  let count ← fit count
  return bytes count ++ body

/-- The count in front and the body behind it. -/
def splitCounted (bs : Bytes) : Except Error (Nat × Bytes) :=
  match bs.takeExactly? Limits.wordBytes with
  | some (count, body) => .ok (BigEndian.decode count, body)
  | none => .error (.malformed .truncated)

@[simp] theorem length_bytes (n : Nat) : (bytes n).length = 2 := BigEndian.length_encode _ _

theorem decode_bytes {n : Nat} (h : n ≤ Limits.word) : BigEndian.decode (bytes n) = n :=
  BigEndian.decode_encode_of_lt (Nat.lt_succ_of_le h)

/-- Two bytes are the bytes of the number that they denote. -/
theorem bytes_decode {word : Bytes} (h : word.length = Limits.wordBytes) :
    BigEndian.decode word ≤ Limits.word ∧ bytes (BigEndian.decode word) = word := by
  have hlt := BigEndian.decode_lt word
  rw [h] at hlt
  refine ⟨Nat.le_of_lt_succ hlt, ?_⟩
  rw [bytes, ← h, BigEndian.encode_decode]

theorem counted_eq_ok_iff {count : Nat} {body bs : Bytes} :
    counted count body = .ok bs ↔ count ≤ Limits.word ∧ bs = bytes count ++ body := by
  by_cases h : count ≤ Limits.word
  · simp [counted, fit, h, bind, Except.bind, pure, Except.pure, eq_comm]
  · simp [counted, fit, h, bind, Except.bind]

theorem splitCounted_bytes_append {count : Nat} (h : count ≤ Limits.word) (body : Bytes) :
    splitCounted (bytes count ++ body) = .ok (count, body) := by
  have := Bytes.takeExactly?_append (bytes count) body
  rw [length_bytes] at this
  simp only [splitCounted, Limits.wordBytes, this, decode_bytes h]

/-- Bytes split into a count and a body exactly if they are the body behind that count. -/
theorem splitCounted_eq_ok_iff {count : Nat} {body bs : Bytes} :
    splitCounted bs = .ok (count, body) ↔ counted count body = .ok bs := by
  rw [counted_eq_ok_iff]
  constructor
  · intro h
    simp only [splitCounted] at h
    split at h
    · rename_i front rest hs
      obtain ⟨rfl, hl⟩ := Bytes.takeExactly?_eq_some_iff.1 hs
      cases h
      obtain ⟨hle, hbytes⟩ := bytes_decode hl
      exact ⟨hle, by rw [hbytes]⟩
    · cases h
  · rintro ⟨h, rfl⟩
    exact splitCounted_bytes_append h body

end Abi.Word
