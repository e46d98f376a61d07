/-
  Booleans in the bits of a byte, the first in the highest bit.

  `unpack_pack`: up to eight booleans come back in front of the bits that were left clear.
-/
import Abi.Bytes
import Abi.Limits
import Abi.Numeral.Positional

namespace Abi.Layout

/-- The binary digit of a truth value. -/
def bit (b : Bool) : Nat := if b then 1 else 0

/-- A byte from at most eight booleans; the bits that none of them takes are clear. -/
def pack (bs : List Bool) : UInt8 :=
  UInt8.ofNat (Numeral.value 2 (bs.map bit) * 2 ^ (Limits.boolsPerByte - bs.length))

/-- The eight bits of a byte. -/
def unpack (b : UInt8) : List Bool :=
  (Numeral.digits 2 Limits.boolsPerByte b.toNat).map (· = 1)

@[simp] theorem length_unpack (b : UInt8) : (unpack b).length = Limits.boolsPerByte := by
  simp [unpack]

theorem bit_lt (b : Bool) : bit b < 2 := by cases b <;> decide

theorem unpack_pack {bs : List Bool} (h : bs.length ≤ Limits.boolsPerByte) :
    unpack (pack bs) = bs ++ List.replicate (Limits.boolsPerByte - bs.length) false := by
  have hz : ∀ k, Numeral.value 2 (List.replicate k 0) = 0 := by
    intro k
    induction k with
    | zero => rfl
    | succ k ih => rw [List.replicate_succ', Numeral.value_concat, ih]
  have hd : ∀ d ∈ bs.map bit ++ List.replicate (Limits.boolsPerByte - bs.length) 0, d < 2 := by
    intro d hd
    rcases List.mem_append.1 hd with hd | hd
    · obtain ⟨b, _, rfl⟩ := List.mem_map.1 hd
      exact bit_lt b
    · rw [List.eq_of_mem_replicate hd]; decide
  have hlen : (bs.map bit ++ List.replicate (Limits.boolsPerByte - bs.length) 0).length
      = Limits.boolsPerByte := by
    simp; omega
  have hv : Numeral.value 2 (bs.map bit) * 2 ^ (Limits.boolsPerByte - bs.length)
      = Numeral.value 2 (bs.map bit ++ List.replicate (Limits.boolsPerByte - bs.length) 0) := by
    rw [Numeral.value_append, hz, List.length_replicate, Nat.add_zero]
  have hlt := Numeral.value_lt hd
  rw [hlen] at hlt
  have e := Numeral.digits_value hd
  rw [hlen] at e
  have hn : (pack bs).toNat
      = Numeral.value 2 (bs.map bit ++ List.replicate (Limits.boolsPerByte - bs.length) 0) := by
    rw [pack, hv, UInt8.toNat_ofNat']
    exact Nat.mod_eq_of_lt hlt
  rw [unpack, hn, e, List.map_append, List.map_map, List.map_replicate]
  congr 1
  have : ∀ b, ((fun d : Nat => decide (d = 1)) ∘ bit) b = b := by
    intro b; cases b <;> rfl
  rw [List.map_congr_left fun b _ => this b, List.map_id']

/-- A byte whose bits come from packing is made of them. -/
theorem pack_unpack (b : UInt8) : pack (unpack b) = b := by
  have hb : ∀ d ∈ Numeral.digits 2 Limits.boolsPerByte b.toNat,
      (bit ∘ fun d : Nat => decide (d = 1)) d = d := by
    intro d hd
    have := Numeral.digits_lt (by decide : 0 < 2) _ _ d hd
    have : d = 0 ∨ d = 1 := by omega
    rcases this with rfl | rfl <;> rfl
  have hlt : b.toNat < 2 ^ Limits.boolsPerByte := b.toNat_lt
  rw [pack, length_unpack, unpack, List.map_map, List.map_congr_left hb, List.map_id',
    Numeral.value_digits, Nat.mod_eq_of_lt hlt]
  simp

end Abi.Layout
