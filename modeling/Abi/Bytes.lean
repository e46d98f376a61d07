/-
  Byte strings as lists, and their hexadecimal text.
-/

namespace Abi

/-- A byte string, first byte first. -/
abbrev Bytes := List UInt8

namespace Bytes

/-- The two lower-case hexadecimal digits of a byte. -/
def hexPair (b : UInt8) : List Char :=
  [Nat.digitChar (b.toNat / 16), Nat.digitChar (b.toNat % 16)]

/-- Two lower-case hexadecimal digits a byte, without a mark in front. -/
def hex (bs : Bytes) : String := String.ofList (bs.flatMap hexPair)

/-- The hexadecimal text with the mark `0x` in front. -/
def marked (bs : Bytes) : String := "0x" ++ hex bs

/-- The first `n` bytes and the rest, if there are that many. -/
def takeExactly? (n : Nat) (bs : Bytes) : Option (Bytes × Bytes) :=
  let front := bs.take n
  if front.length = n then some (front, bs.drop n) else none

theorem takeExactly?_append (front rest : Bytes) :
    takeExactly? front.length (front ++ rest) = some (front, rest) := by
  simp [takeExactly?]

theorem takeExactly?_eq_some_iff {n : Nat} {bs front rest : Bytes} :
    takeExactly? n bs = some (front, rest) ↔ bs = front ++ rest ∧ front.length = n := by
  constructor
  · intro h
    simp only [takeExactly?] at h
    split at h
    · rename_i hn
      cases h
      exact ⟨(List.take_append_drop n bs).symm, hn⟩
    · cases h
  · rintro ⟨rfl, rfl⟩
    exact takeExactly?_append front rest

end Bytes

end Abi
