/-
  Which characters stand for given bytes in base 32.

  A character has five bits and a byte has eight, so that the last character may have bits that
  stand for nothing. Only there can texts of the same bytes differ.

  * `digit?_eq_some_iff`: the characters that have a digit are those of the alphabet, in its order.
  * `decode?_map_char`: what digits are read as.
  * `decode?_concat_eq_some_iff`: a text is read as the bytes exactly if it is the one that is
    written, except for the spare bits of its last character, which are cleared there.
-/
import Abi.Text.Base32
import Mathlib.Data.List.Basic

namespace Abi.Base32

/-! ## Characters -/

/-- The characters, each at the place of its digit. -/
def alphabet : List Char := "ABCDEFGHIJKLMNOPQRSTUVWXYZ234567".toList

theorem alphabet_eq_map_char : alphabet = (List.range 32).map char := by decide

theorem mem_alphabet_iff {c : Char} : c ∈ alphabet ↔ ∃ d < 32, char d = c := by
  simp only [alphabet_eq_map_char, List.mem_map, List.mem_range]

theorem utf8Size_of_mem_alphabet {c : Char} (h : c ∈ alphabet) : c.utf8Size = 1 := by
  have hascii : ∀ d, d < 32 → (char d).val ≤ 127 := by decide
  obtain ⟨d, hd, rfl⟩ := mem_alphabet_iff.1 h
  exact Char.utf8Size_eq_one_iff.2 (hascii d hd)

theorem char_of_digit? {c : Char} {d : Nat} (h : digit? c = some d) : d < 32 ∧ char d = c := by
  have hle : ∀ {a b : Char}, a ≤ b → a.toNat ≤ b.toNat := fun h => h
  unfold digit? at h
  split at h
  · rename_i hc
    cases h
    have hlow : 65 ≤ c.toNat := hle hc.1
    have hhigh : c.toNat ≤ 90 := hle hc.2
    have hA : 'A'.toNat = 65 := rfl
    refine ⟨by omega, ?_⟩
    rw [char, if_pos (by omega), Nat.add_sub_cancel' (by omega), Char.ofNat_toNat]
  split at h
  · rename_i hc
    cases h
    have hlow : 50 ≤ c.toNat := hle hc.1
    have hhigh : c.toNat ≤ 55 := hle hc.2
    have h2 : '2'.toNat = 50 := rfl
    refine ⟨by omega, ?_⟩
    rw [char, if_neg (by omega), Nat.add_sub_cancel, Nat.add_sub_cancel' (by omega),
      Char.ofNat_toNat]
  · cases h

theorem digit?_eq_some_iff {c : Char} {d : Nat} : digit? c = some d ↔ d < 32 ∧ char d = c := by
  constructor
  · exact char_of_digit?
  · rintro ⟨hd, rfl⟩
    exact digit?_char d hd

theorem digit?_eq_none_iff {c : Char} : digit? c = none ↔ c ∉ alphabet := by
  rw [mem_alphabet_iff, Option.eq_none_iff_forall_ne_some]
  simp only [ne_eq, digit?_eq_some_iff, not_exists, not_and]

theorem char_injective {d e : Nat} (hd : d < 32) (he : e < 32) (h : char d = char e) : d = e := by
  have hde := digit?_char d hd
  rw [h, digit?_char e he] at hde
  exact (Option.some.inj hde).symm

/-! ## Digits -/

/-- A text has digits exactly if it is written with them. -/
theorem mapM_digit?_eq_some_iff {cs : List Char} {ds : List Nat} :
    cs.mapM digit? = some ds ↔ (∀ d ∈ ds, d < 32) ∧ ds.map char = cs := by
  induction cs generalizing ds with
  | nil => cases ds <;> simp
  | cons c cs ih =>
    rw [List.mapM_cons, Option.bind_eq_bind, Option.bind_eq_some_iff]
    constructor
    · rintro ⟨d, hd, h⟩
      obtain ⟨es, hes, h⟩ := Option.bind_eq_some_iff.1 h
      cases h
      obtain ⟨hlt, rfl⟩ := digit?_eq_some_iff.1 hd
      obtain ⟨hall, rfl⟩ := ih.1 hes
      exact ⟨List.forall_mem_cons.2 ⟨hlt, hall⟩, rfl⟩
    · rintro ⟨hlt, h⟩
      cases ds with
      | nil => cases h
      | cons d ds =>
        obtain ⟨hd, hds⟩ := List.forall_mem_cons.1 hlt
        obtain ⟨hc, hcs⟩ := List.cons.inj h
        exact ⟨d, digit?_eq_some_iff.2 ⟨hd, hc⟩,
          Option.bind_eq_some_iff.2 ⟨ds, ih.2 ⟨hds, hcs⟩, rfl⟩⟩

/-- Only a text with another character has no digits. -/
theorem mapM_digit?_eq_none_iff {cs : List Char} :
    cs.mapM digit? = none ↔ ∃ c ∈ cs, c ∉ alphabet := by
  induction cs with
  | nil => simp
  | cons c cs ih =>
    rw [List.mapM_cons, List.exists_mem_cons_iff, ← ih, ← digit?_eq_none_iff]
    cases digit? c <;> cases cs.mapM digit? <;> simp

/-- What digits are read as: the bits of all of them in a row, as far as they fill bytes. -/
theorem decode?_map_char {ds : List Nat} (h : ∀ d ∈ ds, d < 32) :
    decode? (ds.map char) = some (BigEndian.encode (byteCount ds.length)
      (Numeral.value 32 ds / 2 ^ (5 * ds.length - 8 * byteCount ds.length))) := by
  unfold decode?
  rw [mapM_digit?_map_char h, List.length_map]
  rfl

theorem decode?_eq_none_iff {cs : List Char} : decode? cs = none ↔ ∃ c ∈ cs, c ∉ alphabet := by
  rw [← mapM_digit?_eq_none_iff]
  unfold decode?
  cases cs.mapM digit? <;> simp

theorem mem_alphabet_of_decode? {cs : List Char} {bs : Bytes} (h : decode? cs = some bs) :
    ∀ c ∈ cs, c ∈ alphabet := by
  by_contra hnot
  push Not at hnot
  rw [decode?_eq_none_iff.2 hnot] at h
  cases h

theorem length_of_decode? {cs : List Char} {bs : Bytes} (h : decode? cs = some bs) :
    bs.length = byteCount cs.length := by
  obtain ⟨ds, _, h⟩ := Option.bind_eq_some_iff.1 h
  cases h
  exact BigEndian.length_encode _ _

/-! ## Spare bits -/

/-- The number of bits of the last character that stand for nothing. -/
def spare (bytes : Nat) : Nat := 5 * charCount bytes - 8 * bytes

theorem spare_lt (bytes : Nat) : spare bytes < 5 := by
  unfold spare charCount
  omega

theorem eight_mul_add_spare (bytes : Nat) : 8 * bytes + spare bytes = 5 * charCount bytes := by
  unfold spare charCount
  omega

/-- The digit with as many of its low bits cleared. -/
def clear (bits d : Nat) : Nat := d / 2 ^ bits * 2 ^ bits

theorem clear_le (bits d : Nat) : clear bits d ≤ d := Nat.div_mul_le_self d _

theorem clear_div (bits d : Nat) : clear bits d / 2 ^ bits = d / 2 ^ bits :=
  Nat.mul_div_cancel _ (Nat.two_pow_pos bits)

/-- Cutting bits off a number cuts them off its last digit. -/
theorem value_concat_div {k : Nat} (hk : k < 5) (ds : List Nat) (d : Nat) :
    Numeral.value 32 (ds ++ [d]) / 2 ^ k = Numeral.value 32 ds * 2 ^ (5 - k) + d / 2 ^ k := by
  have h32 : 2 ^ k * 2 ^ (5 - k) = 32 := by rw [← Nat.pow_add, Nat.add_sub_cancel' (by omega)]
  rw [Numeral.value_concat, ← h32, ← Nat.mul_assoc, Nat.mul_right_comm, Nat.mul_comm _ (2 ^ k),
    Nat.mul_add_div (Nat.two_pow_pos k)]

/-- Putting zeros in their place clears them in the last digit. -/
theorem value_concat_div_mul {k : Nat} (hk : k < 5) (ds : List Nat) (d : Nat) :
    Numeral.value 32 (ds ++ [d]) / 2 ^ k * 2 ^ k = Numeral.value 32 ds * 32 + clear k d := by
  have h32 : 2 ^ (5 - k) * 2 ^ k = 32 := by rw [← Nat.pow_add, Nat.sub_add_cancel (by omega)]
  rw [value_concat_div hk, Nat.add_mul, Nat.mul_assoc, h32, clear]

section

variable {ds : List Nat} {d : Nat} {bs : Bytes}

/-- Digits are read as whole bytes and lose the spare bits. -/
theorem decode?_digits (hds : ∀ e ∈ ds ++ [d], e < 32)
    (hl : ds.length + 1 = charCount bs.length) :
    decode? ((ds ++ [d]).map char) = some (BigEndian.encode bs.length
      (Numeral.value 32 (ds ++ [d]) / 2 ^ spare bs.length)) := by
  rw [decode?_map_char hds, List.length_append, List.length_singleton, hl, byteCount_charCount]
  rfl

theorem value_div_lt (hds : ∀ e ∈ ds ++ [d], e < 32) (hl : ds.length + 1 = charCount bs.length) :
    Numeral.value 32 (ds ++ [d]) / 2 ^ spare bs.length < 256 ^ bs.length := by
  refine Nat.div_lt_of_lt_mul ?_
  have hlt := Numeral.value_lt hds
  have hpow : 32 ^ charCount bs.length = 2 ^ spare bs.length * 256 ^ bs.length := by
    rw [show 32 = 2 ^ 5 from rfl, show 256 = 2 ^ 8 from rfl, ← Nat.pow_mul, ← Nat.pow_mul,
      ← Nat.pow_add, ← eight_mul_add_spare, Nat.add_comm]
  rwa [List.length_append, List.length_singleton, hl, hpow] at hlt

/-- Digits are read as the bytes exactly if these are written with the same digits, the spare bits
of the last one cleared. -/
theorem decode?_digits_eq_some_iff (hds : ∀ e ∈ ds ++ [d], e < 32)
    (hl : ds.length + 1 = charCount bs.length) :
    decode? ((ds ++ [d]).map char) = some bs ↔
      encode bs = (ds ++ [clear (spare bs.length) d]).map char := by
  have hk := spare_lt bs.length
  obtain ⟨hfront, hd⟩ := List.forall_mem_append.1 hds
  rw [List.forall_mem_singleton] at hd
  have he : clear (spare bs.length) d < 32 := Nat.lt_of_le_of_lt (clear_le _ d) hd
  constructor
  · intro h
    -- the number of the bytes is the one of the digits without the spare bits
    rw [decode?_digits hds hl, Option.some.injEq] at h
    have hvalue : BigEndian.decode bs = Numeral.value 32 (ds ++ [d]) / 2 ^ spare bs.length := by
      rw [← BigEndian.decode_encode_of_lt (value_div_lt hds hl), h]
    show (Numeral.digits 32 (charCount bs.length)
      (BigEndian.decode bs * 2 ^ spare bs.length)).map char = _
    rw [hvalue, value_concat_div_mul hk, ← hl, Numeral.digits_concat _ he,
      Numeral.digits_value hfront]
  · intro h
    have hes : ∀ e ∈ ds ++ [clear (spare bs.length) d], e < 32 :=
      List.forall_mem_append.2 ⟨hfront, List.forall_mem_singleton.2 he⟩
    rw [← decode?_encode bs, h, decode?_digits hds hl, decode?_digits hes hl, value_concat_div hk,
      value_concat_div hk, clear_div]

end

/-- A text that is read is written with digits. -/
theorem exists_digits_of_decode? {cs : List Char} {c : Char} {bs : Bytes}
    (h : decode? (cs ++ [c]) = some bs) :
    ∃ ds d, (∀ e ∈ ds ++ [d], e < 32) ∧ ds.map char = cs ∧ char d = c := by
  obtain ⟨es, hes, _⟩ := Option.bind_eq_some_iff.1 h
  obtain ⟨hlt, hmap⟩ := mapM_digit?_eq_some_iff.1 hes
  obtain ⟨ds, rest, rfl, hds, hrest⟩ := List.map_eq_append_iff.1 hmap
  obtain ⟨d, rfl, hd⟩ := List.map_eq_singleton_iff.1 hrest
  exact ⟨ds, d, hlt, hds, hd⟩

/-- A text is read as the bytes exactly if it is the one that is written, except for the spare bits
of its last character, which are cleared there. -/
theorem decode?_concat_eq_some_iff {cs : List Char} {c : Char} {bs : Bytes}
    (hl : cs.length + 1 = charCount bs.length) :
    decode? (cs ++ [c]) = some bs ↔
      ∃ d, digit? c = some d ∧ encode bs = cs ++ [char (clear (spare bs.length) d)] := by
  constructor
  · intro h
    obtain ⟨ds, d, hds, rfl, rfl⟩ := exists_digits_of_decode? h
    rw [List.length_map] at hl
    refine ⟨d, digit?_char d (hds d (List.mem_concat_self ..)), ?_⟩
    rw [← List.map_singleton, ← List.map_append] at h ⊢
    exact (decode?_digits_eq_some_iff hds hl).1 h
  · rintro ⟨d, hd, h⟩
    obtain ⟨hlt, rfl⟩ := digit?_eq_some_iff.1 hd
    -- the characters in front have digits because they are written
    have hback := decode?_encode bs
    rw [h] at hback
    obtain ⟨ds, _, hds, rfl, _⟩ := exists_digits_of_decode? hback
    rw [List.length_map] at hl
    rw [← List.map_singleton, ← List.map_append] at h ⊢
    refine (decode?_digits_eq_some_iff ?_ hl).2 h
    exact List.forall_mem_append.2 ⟨fun e he => hds e (List.mem_append_left _ he),
      List.forall_mem_singleton.2 hlt⟩

end Abi.Base32
