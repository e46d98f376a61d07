/-
  Positions in a list, counted from the front or, by negative numbers, from the end.
-/
import Abi.Error

namespace Abi

/-- The end of a slice. -/
inductive Bound where
  | unbounded
  | included (index : Int)
  | excluded (index : Int)
deriving DecidableEq, Repr

namespace Index

/-- The lengths for which indices count from the end: those that a signed word can hold. -/
def signedBound : Nat := 2 ^ (63 : Nat)

/-- An index counted from the front. -/
def fromFront (length : Nat) (i : Int) : Int :=
  if i < 0 ∧ length < signedBound then i + length else i

/-- The position of an index in a list of the given length. -/
def position (length : Nat) (i : Int) : Except Error Nat :=
  let p := fromFront length i
  if 0 ≤ p ∧ p < length then .ok p.toNat else .error (.index i length)

/-- The nearest position from the front of the list to its end. -/
def clamp (length : Nat) (p : Int) : Nat := min p.toNat length

/-- The position at which a slice begins. The index is an unbounded integer: there is a place behind
the largest signed word too, where the sum in words would overflow. -/
def first (length : Nat) : Bound → Nat
  | .unbounded => 0
  | .included i => clamp length (fromFront length i)
  | .excluded i => clamp length (fromFront length i + 1)

/-- The position before which a slice ends. As in `first` there is a place behind every index. -/
def last (length : Nat) : Bound → Nat
  | .unbounded => length
  | .included i => clamp length (fromFront length i + 1)
  | .excluded i => clamp length (fromFront length i)

/-- The items between two bounds; none if the bounds are in reverse. -/
def slice {α : Type} (xs : List α) (start stop : Bound) : List α :=
  (xs.drop (first xs.length start)).take (last xs.length stop - first xs.length start)

/-- A position read as a signed word, as complaints name it: one of `signedBound` or more shows as a
negative number. It is irreducible, or else unfolding would end in arithmetic on whole words. -/
@[irreducible]
def signed (k : Nat) : Int := (k : Int).bmod (2 * signedBound)

/-- The item at a position. -/
def item {α : Type} (xs : List α) (k : Nat) : Except Error α :=
  match xs[k]? with
  | some x => .ok x
  | none => .error (.index (signed k) xs.length)

/-- The list with another item at a position. -/
def replace {α : Type} (xs : List α) (k : Nat) (x : α) : Except Error (List α) :=
  if k < xs.length then .ok (xs.set k x) else .error (.index (signed k) xs.length)

/-- Whatever can be counted by a word can be counted from the end. -/
theorem word_lt_signedBound : Limits.word < signedBound := by decide

theorem signed_of_lt {k : Nat} (h : k < signedBound) : signed k = k := by
  unfold signed
  refine Int.bmod_eq_of_le ?_ ?_ <;> omega

theorem position_eq_ok_iff {length k : Nat} {i : Int} :
    position length i = .ok k ↔ fromFront length i = k ∧ k < length := by
  simp only [position]
  split <;> simp <;> omega

theorem position_natCast {length k : Nat} (h : k < length) :
    position length (k : Int) = .ok k := by
  rw [position_eq_ok_iff]
  refine ⟨?_, h⟩
  unfold fromFront
  rw [if_neg (by omega)]

theorem position_neg {length b : Nat} (hl : length < signedBound) (hb : 0 < b) :
    position length (-b) =
      if b ≤ length then .ok (length - b) else .error (.index (-b) length) := by
  have hf : fromFront length (-b) = -b + length := if_pos ⟨by omega, hl⟩
  by_cases hi : b ≤ length
  · rw [if_pos hi, position_eq_ok_iff, hf]
    omega
  · rw [if_neg hi]
    unfold position
    rw [hf]
    exact if_neg (by omega)

theorem position_sub_length {length k : Nat} (h : k < length) (hl : length < signedBound) :
    position length (k - length : Int) = .ok k := by
  have hb : (k - length : Int) = -(length - k : Nat) := by omega
  rw [hb, position_neg hl (Nat.sub_pos_of_lt h), if_pos (Nat.sub_le length k),
    Nat.sub_sub_self (Nat.le_of_lt h)]

theorem item_eq_ok_iff {α : Type} {xs : List α} {k : Nat} {x : α} :
    item xs k = .ok x ↔ xs[k]? = some x := by
  simp only [item]
  split <;> simp [*]

theorem replace_eq_ok_iff {α : Type} {xs ys : List α} {k : Nat} {x : α} :
    replace xs k x = .ok ys ↔ k < xs.length ∧ ys = xs.set k x := by
  simp only [replace]
  split <;> simp [*, eq_comm]

end Index

end Abi
