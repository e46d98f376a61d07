/-
  Unsigned integers as byte strings, most significant byte first.

  A width counts bytes. Writing keeps the low bytes only (`decode_encode`); reading loses nothing
  (`encode_decode`).
-/
import Abi.Bytes
import Abi.Numeral.Positional

namespace Abi.BigEndian

/-- The low `width` bytes of `n`. -/
def encode (width n : Nat) : Bytes := (Numeral.digits 256 width n).map UInt8.ofNat

/-- The number that the bytes denote. -/
def decode (bs : Bytes) : Nat := Numeral.value 256 (bs.map UInt8.toNat)

@[simp] theorem length_encode (width n : Nat) : (encode width n).length = width := by
  simp [encode]

@[simp] theorem decode_nil : decode [] = 0 := rfl

theorem decode_append (xs ys : Bytes) :
    decode (xs ++ ys) = decode xs * 256 ^ ys.length + decode ys := by
  simp [decode, Numeral.value_append]

theorem decode_cons (b : UInt8) (bs : Bytes) :
    decode (b :: bs) = b.toNat * 256 ^ bs.length + decode bs := by
  have := decode_append [b] bs
  simpa [decode, Numeral.value] using this

theorem decode_lt (bs : Bytes) : decode bs < 256 ^ bs.length := by
  have h : ∀ d ∈ bs.map UInt8.toNat, d < 256 := by
    intro d hd
    obtain ⟨b, _, rfl⟩ := List.mem_map.1 hd
    exact b.toNat_lt
  simpa [decode] using Numeral.value_lt h

theorem decode_encode (width n : Nat) : decode (encode width n) = n % 256 ^ width := by
  have h : ∀ d ∈ Numeral.digits 256 width n, (UInt8.toNat ∘ UInt8.ofNat) d = id d := by
    intro d hd
    have := Numeral.digits_lt (by decide : 0 < 256) width n d hd
    simp [Nat.mod_eq_of_lt this]
  rw [decode, encode, List.map_map, List.map_congr_left h, List.map_id, Numeral.value_digits]

theorem decode_encode_of_lt {width n : Nat} (h : n < 256 ^ width) :
    decode (encode width n) = n := by
  rw [decode_encode, Nat.mod_eq_of_lt h]

theorem encode_decode (bs : Bytes) : encode bs.length (decode bs) = bs := by
  have h : ∀ d ∈ bs.map UInt8.toNat, d < 256 := by
    intro d hd
    obtain ⟨b, _, rfl⟩ := List.mem_map.1 hd
    exact b.toNat_lt
  have e := Numeral.digits_value h
  rw [List.length_map] at e
  rw [encode, decode, e, List.map_map]
  simp [Function.comp_def]

/-- Byte strings of one length are equal if they denote the same number. -/
theorem eq_of_decode_eq {xs ys : Bytes} (hl : xs.length = ys.length)
    (h : decode xs = decode ys) : xs = ys := by
  rw [← encode_decode xs, ← encode_decode ys, hl, h]

end Abi.BigEndian
