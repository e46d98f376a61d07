/-
  What decimal literals are, which are read, and what number they denote.

  A literal is digits in front of a point and behind it, at least one in all; without a fraction the
  point may be left out. That is a form of texts of its own (`Literal`, `Literal.Spells`), with a
  rational number for every text that has it (`Denotes`). A text is split at its first point, so it
  spells one literal at most (`spells_iff`).

  * `read_of_spells`, `read_of_no_literal`: what becomes of a literal, and of any other text.
  * `shows_write`: what is written is the quotient and the remainder by the power of ten.
  * `literals_are_exact`: all of it together, and that the text that is written denotes the number
    that was read.
-/
import Abi.Proofs.Numeral.FixedPoint
import Mathlib.Algebra.Field.Rat
import Mathlib.Tactic.FieldSimp

namespace Abi

namespace FixedPoint

/-! ## Literals -/

/-- A decimal literal: digits in front of a point and behind it, at least one in all. -/
structure Literal where
  whole : List Char
  fraction : List Char
  digits : Decimal.allDigits (whole ++ fraction) = true
  ne_nil : whole ++ fraction ≠ []

namespace Literal

variable {l m : Literal} {s : String} {precision : Nat}

/-- The text is the literal; without a fraction the point may be left out. -/
def Spells (l : Literal) (s : String) : Prop :=
  s.toList = l.whole ++ '.' :: l.fraction ∨ l.fraction = [] ∧ s.toList = l.whole

/-- The integer of all digits, scaled from the places that there are to the given ones. -/
def scaled (l : Literal) (precision : Nat) : Nat :=
  Decimal.value (l.whole ++ l.fraction) * 10 ^ (precision - l.fraction.length)

/-- The number that the literal denotes. -/
def toRat (l : Literal) : ℚ := Decimal.value (l.whole ++ l.fraction) / 10 ^ l.fraction.length

theorem digits_whole (l : Literal) : Decimal.allDigits l.whole = true := by
  have h := l.digits
  rw [Decimal.allDigits_append, Bool.and_eq_true] at h
  exact h.1

/-- A text spells the literal of its two parts and no other. -/
theorem spells_iff :
    l.Spells s ↔ wholePart s.toList = l.whole ∧ fractionPart s.toList = l.fraction := by
  obtain ⟨hpoint, hbare⟩ := parts_of_digits l.digits_whole l.fraction
  constructor
  · rintro (h | ⟨hf, h⟩)
    · rw [h]
      exact hpoint
    · rw [h, hf]
      exact hbare
  · rintro ⟨hw, hf⟩
    have hsplit := List.takeWhile_append_dropWhile (p := (· ≠ '.')) (l := s.toList)
    unfold Spells
    rw [← hw, ← hf]
    unfold wholePart fractionPart
    cases hrest : s.toList.dropWhile (· ≠ '.') with
    | nil =>
      rw [hrest, List.append_nil] at hsplit
      exact Or.inr ⟨rfl, hsplit.symm⟩
    | cons c cs =>
      have hc : c = '.' := by
        have hhead := List.head?_dropWhile_not (fun d => decide (d ≠ '.')) s.toList
        rw [hrest] at hhead
        simpa using hhead
      rw [hrest, hc] at hsplit
      exact Or.inl hsplit.symm

theorem eq_of_spells (hl : l.Spells s) (hm : m.Spells s) : l = m := by
  rw [spells_iff] at hl hm
  obtain ⟨_, _, _, _⟩ := l
  obtain ⟨_, _, _, _⟩ := m
  obtain ⟨rfl, rfl⟩ := hl
  obtain ⟨rfl, rfl⟩ := hm
  rfl

/-- What holds of a literal of the text holds of the one that there is. -/
theorem exists_spells_iff (h : l.Spells s) {p : Literal → Prop} :
    (∃ m : Literal, m.Spells s ∧ p m) ↔ p l := by
  constructor
  · rintro ⟨m, hm, hp⟩
    rwa [eq_of_spells h hm]
  · exact fun hp => ⟨l, h, hp⟩

/-- There is no sign in front of a literal. -/
theorem head?_of_spells (h : l.Spells s) : s.toList.head? ≠ some '-' := by
  have hsign : ∀ c ∈ l.whole, c ≠ '-' := Decimal.ne_of_allDigits rfl l.digits_whole
  cases hw : l.whole with
  | nil =>
    rcases h with h | ⟨hf, h⟩
    · rw [h, hw]
      simp
    · rw [h, hw]
      simp
  | cons c cs =>
    have hc : c ≠ '-' := hsign c (by rw [hw]; exact List.mem_cons_self ..)
    rcases h with h | ⟨_, h⟩
    · rw [h, hw]
      simpa using hc
    · rw [h, hw]
      simpa using hc

/-- Scaling does not round. -/
theorem scaled_div (h : l.fraction.length ≤ precision) :
    (l.scaled precision : ℚ) / 10 ^ precision = l.toRat := by
  obtain ⟨k, rfl⟩ := Nat.exists_eq_add_of_le h
  unfold scaled toRat
  rw [Nat.add_sub_cancel_left, Nat.cast_mul, Nat.cast_pow, pow_add]
  field_simp
  norm_num

end Literal

/-- The text is a literal that denotes the number. -/
def Denotes (s : String) (q : ℚ) : Prop := ∃ l : Literal, l.Spells s ∧ l.toRat = q

theorem Literal.denotes_iff {l : Literal} {s : String} (h : l.Spells s) {q : ℚ} :
    Denotes s q ↔ q = l.toRat := (Literal.exists_spells_iff h).trans eq_comm

/-! ## Reading -/

section

variable {precision n : Nat} {s : String}

/-- What becomes of a literal. -/
theorem read_of_spells {l : Literal} (h : l.Spells s) : read precision s =
    if precision < l.fraction.length then .error (.badValue (.fractionDigits s precision))
    else if l.scaled precision < bound then .ok (l.scaled precision)
    else .error (.range "ufixed" s) := by
  obtain ⟨hw, hf⟩ := Literal.spells_iff.1 h
  have hne : ¬ (l.whole = [] ∧ l.fraction = []) := by
    rw [← List.append_eq_nil_iff]
    exact l.ne_nil
  unfold read
  simp only [hw, hf]
  rw [if_neg (Literal.head?_of_spells h), if_neg (by simp [hne, l.digits])]
  rfl

/-- What becomes of any other text. -/
theorem read_of_no_literal (h : ¬ ∃ l : Literal, l.Spells s) : read precision s =
    .error (.badValue (if s.toList.head? = some '-' then .negativeDecimal s else .decimal s)) := by
  unfold read
  dsimp only
  split
  · rfl
  · refine if_pos (Classical.not_not.1 fun hparts => h ?_)
    rw [not_or, Classical.not_not, ← List.append_eq_nil_iff] at hparts
    exact ⟨⟨_, _, hparts.2, hparts.1⟩, Literal.spells_iff.2 ⟨rfl, rfl⟩⟩

/-- A text is read as a number exactly if it is a literal with no more places than there are, and
the number is its scaled integer and not too large; a literal that is only too large is out of
range, and any other text is no value. -/
structure ReadsLiterals (precision : Nat) (s : String) : Prop where
  ok_iff (n : Nat) : read precision s = .ok n ↔ ∃ l : Literal, l.Spells s ∧
    l.fraction.length ≤ precision ∧ n = l.scaled precision ∧ n < bound
  range (l : Literal) : l.Spells s → l.fraction.length ≤ precision → bound ≤ l.scaled precision →
    read precision s = .error (.range "ufixed" s)
  invalid : (¬ ∃ l : Literal, l.Spells s ∧ l.fraction.length ≤ precision) →
    ∃ cause, read precision s = .error (.badValue cause)

theorem readsLiterals_of_spells {l : Literal} (h : l.Spells s) : ReadsLiterals precision s where
  ok_iff n := by
    rw [Literal.exists_spells_iff h, read_of_spells h]
    split
    · simp only [reduceCtorEq, false_iff]
      omega
    · split
      · simp only [Except.ok.injEq]
        omega
      · simp only [reduceCtorEq, false_iff]
        omega
  range m hm hfit hbig := by
    rw [read_of_spells hm, if_neg (by omega), if_neg (by omega)]
  invalid hno := by
    rw [Literal.exists_spells_iff h] at hno
    exact ⟨_, (read_of_spells h).trans (if_pos (by omega))⟩

theorem readsLiterals (precision : Nat) (s : String) : ReadsLiterals precision s := by
  by_cases hs : ∃ l : Literal, l.Spells s
  · obtain ⟨l, hl⟩ := hs
    exact readsLiterals_of_spells hl
  · have hread := @read_of_no_literal precision s hs
    refine ⟨fun n => ?_, fun l hl => absurd ⟨l, hl⟩ hs, fun _ => ⟨_, hread⟩⟩
    rw [hread]
    exact iff_of_false nofun fun ⟨l, hl, _⟩ => hs ⟨l, hl⟩

/-! ## Writing -/

/-- The text shows the scaled integer: the quotient by the power of ten without superfluous zeros
in front, and behind a point the remainder in all its places; without places there is no point. -/
def Shows (precision n : Nat) (s : String) : Prop :=
  ∃ whole fraction, s.toList = (if precision = 0 then whole else whole ++ '.' :: fraction) ∧
    Decimal.isShortest whole = true ∧ Decimal.value whole = n / 10 ^ precision ∧
    fraction.length = precision ∧ Decimal.allDigits fraction = true ∧
    Decimal.value fraction = n % 10 ^ precision

theorem shows_write (precision n : Nat) : Shows precision n (write precision n) := by
  obtain ⟨whole, fraction, hw, hs, hl, hd, hv⟩ := exists_writeChars precision n
  rw [Decimal.allDigits_append, Bool.and_eq_true] at hd
  have hlt := Decimal.value_lt hd.2
  rw [Decimal.value_append, hl] at hv
  rw [hl] at hlt
  have hpos : 0 < 10 ^ precision := Nat.pow_pos (by decide)
  refine ⟨whole, fraction, ?_, hs, ?_, hl, hd.2, ?_⟩
  · rw [write, String.toList_ofList, hw]
  · rw [← hv, Nat.add_comm, Nat.add_mul_div_right _ _ hpos, Nat.div_eq_of_lt hlt, Nat.zero_add]
  · rw [← hv, Nat.mul_comm, Nat.mul_add_mod, Nat.mod_eq_of_lt hlt]

/-- A number that was read is the one that the text denotes, scaled. -/
theorem denotes_iff_of_read (h : read precision s = .ok n) (q : ℚ) :
    Denotes s q ↔ q = n / 10 ^ precision := by
  obtain ⟨l, hl, hfit, rfl, _⟩ := ((readsLiterals precision s).ok_iff n).1 h
  rw [Literal.denotes_iff hl, Literal.scaled_div hfit]

end

/-! ## Exactness -/

/-- Literals are read and written without loss: which texts are read, as what and with which
failures; what is written; that this is read back; and that it denotes the number that the text
denoted from which it was read. -/
theorem literals_are_exact (precision : Nat) :
    (∀ s, ReadsLiterals precision s) ∧
      (∀ n, Shows precision n (write precision n)) ∧
      (∀ n, n < bound → read precision (write precision n) = .ok n) ∧
      ∀ s n, read precision s = .ok n → ∀ q : ℚ,
        (Denotes s q ↔ q = n / 10 ^ precision) ∧
          (Denotes (write precision n) q ↔ Denotes s q) := by
  refine ⟨readsLiterals precision, shows_write precision, fun n hn => read_write hn, ?_⟩
  intro s n h q
  obtain ⟨_, _, _, _, hn⟩ := ((readsLiterals precision s).ok_iff n).1 h
  refine ⟨denotes_iff_of_read h q, ?_⟩
  rw [denotes_iff_of_read h, denotes_iff_of_read (read_write hn)]

/-- A literal without a whole part and with fewer places than the type; one that is too large for as
many places as it is asked for; a text with two points. -/
theorem literals_are_exact_half :
    read 2 ".5" = .ok 50 ∧ write 2 50 = "0.50" ∧ 50 < bound ∧ read 2 (write 2 50) = .ok 50 ∧
      (∀ q : ℚ, (Denotes ".5" q ↔ q = (50 : Nat) / 10 ^ 2) ∧
        (Denotes (write 2 50) q ↔ Denotes ".5" q)) ∧
      read 155 "1" = .error (.range "ufixed" "1") ∧
      ∃ cause, read 2 "1.5.0" = .error (.badValue cause) := by
  have hread : read 2 ".5" = .ok 50 := by decide +kernel
  have hbound : 50 < bound := by decide +kernel
  have hlarge : bound ≤ (⟨['1'], [], by decide, by decide⟩ : Literal).scaled 155 := by
    decide +kernel
  have htwo : ¬ ∃ l : Literal, l.Spells "1.5.0" ∧ l.fraction.length ≤ 2 := by
    rintro ⟨l, hl, _⟩
    have hdigits := l.digits
    rw [← (Literal.spells_iff.1 hl).1, ← (Literal.spells_iff.1 hl).2] at hdigits
    exact absurd hdigits (by decide +kernel)
  obtain ⟨_, _, hback, hdenotes⟩ := literals_are_exact 2
  refine ⟨hread, by decide +kernel, hbound, hback 50 hbound, hdenotes ".5" 50 hread, ?_, ?_⟩
  · exact ((literals_are_exact 155).1 "1").range _ (Or.inr ⟨rfl, rfl⟩) (Nat.zero_le _) hlarge
  · exact ((literals_are_exact 2).1 "1.5.0").invalid htwo

end FixedPoint

end Abi
