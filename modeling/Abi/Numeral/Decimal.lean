/-
  Natural numbers in decimal, without sign, blanks or leading zeros.

  `readBelow?_eq_some_iff`: a text is read as `n` exactly if it is what `write` makes of `n`.
-/

namespace Abi.Decimal

/-- The shortest decimal text of a number. -/
def write (n : Nat) : List Char := Nat.toDigits 10 n

/-- The number that a string of decimal digits denotes. -/
def value (cs : List Char) : Nat := Nat.ofDigitChars 10 cs 0

/-- Every character is one of the ten ASCII digits. -/
def allDigits (cs : List Char) : Bool := cs.all Char.isDigit

/-- At least one digit, nothing but digits, and no zero in front of another digit. -/
def isShortest (cs : List Char) : Bool :=
  !cs.isEmpty && allDigits cs && (cs.length ≤ 1 || cs.head? != some '0')

/-- Reads a number below `bound` in its shortest form. -/
def readBelow? (bound : Nat) (cs : List Char) : Option Nat :=
  if isShortest cs && decide (value cs < bound) then some (value cs) else none

/-! ## What is written -/

@[simp] theorem value_write (n : Nat) : value (write n) = n := Nat.ofDigitChars_ten_toDigits

theorem value_concat (cs : List Char) (c : Char) :
    value (cs ++ [c]) = 10 * value cs + (c.toNat - '0'.toNat) := by
  simp [value, Nat.ofDigitChars_append, Nat.ofDigitChars_cons]

theorem allDigits_write (n : Nat) : allDigits (write n) = true := by
  simp only [allDigits, List.all_eq_true]
  intro c hc
  exact Nat.isDigit_of_mem_toDigits (by decide) (by decide) hc

theorem write_of_lt_ten {n : Nat} (h : n < 10) : write n = [n.digitChar] :=
  Nat.toDigits_of_lt_base h

theorem write_of_ten_le {n : Nat} (h : 10 ≤ n) :
    write n = write (n / 10) ++ [(n % 10).digitChar] := by
  rw [write, Nat.toDigits_of_base_le (by decide) h,
    ← Nat.toDigits_of_lt_base (Nat.mod_lt _ (by decide))]
  rfl

theorem write_ne_nil (n : Nat) : write n ≠ [] := Nat.toDigits_ne_nil

/-- A shortest text with more than one digit starts with something else than zero. -/
theorem head?_write {n : Nat} (h : n ≠ 0) : (write n).head? ≠ some '0' := by
  induction n using Nat.strongRecOn with
  | ind n ih =>
    by_cases h10 : n < 10
    · simp [write_of_lt_ten h10, Nat.digitChar_eq_zero, h]
    · have hq : n / 10 ≠ 0 := by omega
      have := ih (n / 10) (by omega) hq
      rw [write_of_ten_le (by omega), List.head?_append, Option.or_of_isSome]
      · exact this
      · simpa using write_ne_nil (n / 10)

theorem isShortest_write (n : Nat) : isShortest (write n) = true := by
  have hne := write_ne_nil n
  by_cases h10 : n < 10
  · have hd := allDigits_write n
    simp [isShortest, hne, hd]
    left
    simp [write_of_lt_ten h10]
  · simp [isShortest, hne, allDigits_write, head?_write (by omega : n ≠ 0)]

/-! ## What is read -/

theorem digitChar_toNat_sub {c : Char} (h : c.isDigit) : (c.toNat - '0'.toNat).digitChar = c := by
  have hb : 48 ≤ c.toNat ∧ c.toNat ≤ 57 := by
    simpa [Char.isDigit, UInt32.le_iff_toNat_le] using h
  have hv : ∀ k, k < 10 → c.toNat = 48 + k → (c.toNat - '0'.toNat).digitChar = c := by
    intro k hk hc
    have : c = Char.ofNat (48 + k) := by rw [← hc, Char.ofNat_toNat]
    subst this
    have : k = 0 ∨ k = 1 ∨ k = 2 ∨ k = 3 ∨ k = 4 ∨ k = 5 ∨ k = 6 ∨ k = 7 ∨ k = 8 ∨ k = 9 := by
      omega
    rcases this with rfl | rfl | rfl | rfl | rfl | rfl | rfl | rfl | rfl | rfl <;> rfl
  exact hv (c.toNat - 48) (by omega) (by omega)

theorem toNat_sub_lt {c : Char} (h : c.isDigit) : c.toNat - '0'.toNat < 10 := by
  have hb : 48 ≤ c.toNat ∧ c.toNat ≤ 57 := by
    simpa [Char.isDigit, UInt32.le_iff_toNat_le] using h
  have : '0'.toNat = 48 := rfl
  omega

/-- Digits that do not start with zero denote a positive number. -/
theorem value_pos {cs : List Char} (hd : allDigits cs = true) (hne : cs ≠ [])
    (h0 : cs.head? ≠ some '0') : 0 < value cs := by
  cases cs with
  | nil => exact absurd rfl hne
  | cons c cs =>
    have hc : c.isDigit = true := by simp [allDigits] at hd; exact hd.1
    have hc0 : c.toNat - '0'.toNat ≠ 0 := by
      intro h
      have := digitChar_toNat_sub hc
      rw [h] at this
      simp at h0
      exact h0 this.symm
    have e : value (c :: cs) = 10 ^ cs.length * (c.toNat - '0'.toNat) + value cs := by
      rw [value, Nat.ofDigitChars_cons, Nat.ofDigitChars_eq_ofDigitChars_zero]
      simp [value]
    have : 0 < 10 ^ cs.length * (c.toNat - '0'.toNat) :=
      Nat.mul_pos (Nat.pow_pos (by decide)) (by omega)
    omega

theorem write_value {cs : List Char} (h : isShortest cs = true) : write (value cs) = cs := by
  suffices H : ∀ rs : List Char, isShortest rs.reverse = true →
      write (value rs.reverse) = rs.reverse by
    have := H cs.reverse (by simpa using h)
    simpa using this
  intro rs
  induction rs with
  | nil => intro h; simp [isShortest] at h
  | cons c rs ih =>
    intro h
    rw [List.reverse_cons] at h ⊢
    simp only [isShortest, allDigits, List.all_append, List.all_cons, List.all_nil, Bool.and_true,
      Bool.and_eq_true] at h
    obtain ⟨⟨_, hd, hc⟩, h0⟩ := h
    have hlt := toNat_sub_lt hc
    rw [value_concat]
    by_cases hr : rs = []
    · subst hr
      simp only [List.reverse_nil, List.nil_append]
      rw [show value [] = 0 from rfl, Nat.mul_zero, Nat.zero_add, write_of_lt_ten hlt,
        digitChar_toNat_sub hc]
    · have hrr : rs.reverse ≠ [] := by simpa using hr
      have hhead : rs.reverse.head? ≠ some '0' := by
        rw [List.head?_append, Option.or_of_isSome (by simpa using hr)] at h0
        have : 1 < (rs.reverse ++ [c]).length := by
          have := List.length_pos_iff.2 hr
          simp; omega
        simp only [Bool.or_eq_true, decide_eq_true_eq, bne_iff_ne] at h0
        rcases h0 with h0 | h0
        · omega
        · exact h0
      have hpos := value_pos hd hrr hhead
      have ih' := ih (by
        rw [isShortest, allDigits, hd]
        simp only [Bool.and_true, Bool.and_eq_true, Bool.or_eq_true, bne_iff_ne]
        exact ⟨by simpa using hr, Or.inr hhead⟩)
      rw [write_of_ten_le (by omega), Nat.mul_add_div (by decide), Nat.div_eq_of_lt hlt,
        Nat.add_zero, ih', Nat.mul_add_mod, Nat.mod_eq_of_lt hlt, digitChar_toNat_sub hc]

/-- A text is read as `n` exactly if it is the shortest text of `n` and `n` is small enough. -/
theorem readBelow?_eq_some_iff {bound n : Nat} {cs : List Char} :
    readBelow? bound cs = some n ↔ n < bound ∧ cs = write n := by
  simp only [readBelow?]
  constructor
  · intro h
    split at h
    · rename_i hc
      simp only [Bool.and_eq_true, decide_eq_true_eq] at hc
      cases h
      exact ⟨hc.2, (write_value hc.1).symm⟩
    · cases h
  · rintro ⟨hn, rfl⟩
    simp [isShortest_write, hn]

theorem write_injective {m n : Nat} (h : write m = write n) : m = n := by
  rw [← value_write m, h, value_write]

end Abi.Decimal
