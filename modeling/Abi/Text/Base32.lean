/-
  Base 32: upper-case letters and the digits 2 to 7, five bits a character, without padding.

  The last character may have bits to spare.  Writing clears them, reading ignores them.
-/
import Abi.Numeral.BigEndian

namespace Abi.Base32

/-- The character of a digit. -/
def char (d : Nat) : Char :=
  if d < 26 then Char.ofNat ('A'.toNat + d) else Char.ofNat ('2'.toNat + (d - 26))

/-- The digit of a character. -/
def digit? (c : Char) : Option Nat :=
  if 'A' ≤ c ∧ c ≤ 'Z' then some (c.toNat - 'A'.toNat)
  else if '2' ≤ c ∧ c ≤ '7' then some (c.toNat - '2'.toNat + 26)
  else none

/-- The characters that hold this many bytes. -/
def charCount (bytes : Nat) : Nat := (8 * bytes + 4) / 5

/-- The whole bytes in this many characters. -/
def byteCount (chars : Nat) : Nat := 5 * chars / 8

/-- The characters of a byte string. -/
def encode (bs : Bytes) : List Char :=
  let count := charCount bs.length
  (Numeral.digits 32 count (BigEndian.decode bs * 2 ^ (5 * count - 8 * bs.length))).map char

/-- The bytes of a text, unless a character is not in the alphabet. -/
def decode? (cs : List Char) : Option Bytes := do
  let ds ← cs.mapM digit?
  let count := byteCount cs.length
  return BigEndian.encode count (Numeral.value 32 ds / 2 ^ (5 * cs.length - 8 * count))

/-! ## Round trip -/

theorem digit?_char : ∀ d, d < 32 → digit? (char d) = some d := by decide

@[simp] theorem length_encode (bs : Bytes) : (encode bs).length = charCount bs.length := by
  simp [encode]

theorem byteCount_charCount (n : Nat) : byteCount (charCount n) = n := by
  simp only [byteCount, charCount]; omega

/-- Digits are found again in their characters. -/
theorem mapM_digit?_map_char {ds : List Nat} (h : ∀ d ∈ ds, d < 32) :
    (ds.map char).mapM digit? = some ds := by
  induction ds with
  | nil => rfl
  | cons d ds ih =>
    rw [List.map_cons, List.mapM_cons, digit?_char d (h d (by simp)),
      ih (fun x hx => h x (by simp [hx]))]
    rfl

/-- Writing and reading give the bytes back. -/
theorem decode?_encode (bs : Bytes) : decode? (encode bs) = some bs := by
  have hspare : 5 * charCount bs.length - 8 * bs.length + 8 * bs.length
      = 5 * charCount bs.length := by
    simp only [charCount]; omega
  have hlt : BigEndian.decode bs * 2 ^ (5 * charCount bs.length - 8 * bs.length)
      < 32 ^ charCount bs.length := by
    have h1 := BigEndian.decode_lt bs
    have e1 : (256 : Nat) ^ bs.length = 2 ^ (8 * bs.length) := by
      rw [Nat.pow_mul]
    have e2 : (32 : Nat) ^ charCount bs.length = 2 ^ (5 * charCount bs.length) := by
      rw [Nat.pow_mul]
    calc _ < 256 ^ bs.length * 2 ^ (5 * charCount bs.length - 8 * bs.length) :=
          Nat.mul_lt_mul_of_pos_right h1 (Nat.two_pow_pos _)
      _ = 32 ^ charCount bs.length := by rw [e1, e2, ← Nat.pow_add, Nat.add_comm, hspare]
  simp only [decode?, length_encode, byteCount_charCount]
  rw [encode, mapM_digit?_map_char (Numeral.digits_lt (by decide) _ _)]
  simp only [bind, Option.bind, pure, Numeral.value_digits, Nat.mod_eq_of_lt hlt,
    Nat.mul_div_cancel _ (Nat.two_pow_pos _), BigEndian.encode_decode]

end Abi.Base32
