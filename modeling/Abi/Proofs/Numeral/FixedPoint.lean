/-
  The canonical text of a decimal literal, and that it is what comes out when a literal is read
  and written again; and that what is written is read back.

  The canonical text is made from the literal alone, without a number in between: zeros in front
  are cut off, zeros behind are filled in. That writing gives the same rests on one fact about
  digit strings (`eq_zeros_append_write`): each is the shortest numeral of its value behind zeros.

  * `write_of_read`: a literal that is read as `n` has the text of `n` for its canonical text.
  * `read_write`: a number is read back from its text.
-/
import Abi.Numeral.FixedPoint
import Mathlib.Data.List.Induction
import Mathlib.Data.List.TakeWhile

namespace Abi

namespace Decimal

/-! ## Zeros around digits -/

theorem value_append (cs ds : List Char) :
    value (cs ++ ds) = value cs * 10 ^ ds.length + value ds := by
  induction ds using List.reverseRecOn with
  | nil => simp [value]
  | append_singleton ds d ih =>
    rw [← List.append_assoc, value_concat, value_concat, ih, List.length_append,
      List.length_singleton, Nat.pow_succ, Nat.mul_add, ← Nat.mul_assoc (value cs),
      Nat.mul_comm 10 (value cs * _), Nat.add_assoc]

/-- Digits denote a number below the power of ten that their number says. -/
theorem value_lt {cs : List Char} (h : allDigits cs = true) : value cs < 10 ^ cs.length := by
  induction cs using List.reverseRecOn with
  | nil => decide
  | append_singleton cs c ih =>
    rw [allDigits, List.all_append, Bool.and_eq_true] at h
    have hfront := ih h.1
    have hdigit : c.toNat - '0'.toNat < 10 := toNat_sub_lt (List.all_eq_true.1 h.2 c (by simp))
    rw [value_concat, List.length_append, List.length_singleton, Nat.pow_succ]
    omega

theorem value_append_zeros (cs : List Char) (k : Nat) :
    value (cs ++ List.replicate k '0') = value cs * 10 ^ k := by
  have hzeros : value (List.replicate k '0') = 0 := by
    induction k with
    | zero => rfl
    | succ k ih =>
      rw [List.replicate_succ', value_concat, ih]
      rfl
  rw [value_append, hzeros, List.length_replicate, Nat.add_zero]

theorem value_zero_cons (cs : List Char) : value ('0' :: cs) = value cs := by
  rw [value, Nat.ofDigitChars_cons]
  rfl

theorem value_zeros_append (k : Nat) (cs : List Char) :
    value (List.replicate k '0' ++ cs) = value cs := by
  induction k with
  | zero => rfl
  | succ k ih => rw [List.replicate_succ, List.cons_append, value_zero_cons, ih]

theorem allDigits_append (cs ds : List Char) :
    allDigits (cs ++ ds) = (allDigits cs && allDigits ds) := List.all_append

theorem allDigits_zeros (k : Nat) : allDigits (List.replicate k '0') = true := by
  rw [allDigits, List.all_eq_true]
  intro c hc
  rw [List.eq_of_mem_replicate hc]
  rfl

theorem ne_of_allDigits {cs : List Char} {c : Char} (hc : c.isDigit = false)
    (h : allDigits cs = true) : ∀ d ∈ cs, d ≠ c := by
  rintro d hd rfl
  have hdigit := List.all_eq_true.1 h d hd
  rw [hc] at hdigit
  cases hdigit

/-- A digit string is the shortest numeral of its value behind zeros. -/
theorem eq_zeros_append_write {cs : List Char} (hd : allDigits cs = true) (hne : cs ≠ []) :
    ∃ k, cs = List.replicate k '0' ++ write (value cs) := by
  induction cs with
  | nil => exact absurd rfl hne
  | cons c cs ih =>
    by_cases hc : c = '0'
    · subst hc
      by_cases hcs : cs = []
      · exact ⟨0, by rw [hcs]; rfl⟩
      · obtain ⟨k, hk⟩ := ih (by simpa [allDigits] using hd) hcs
        refine ⟨k + 1, ?_⟩
        rw [value_zero_cons, List.replicate_succ, List.cons_append, ← hk]
    · refine ⟨0, (write_value ?_).symm⟩
      rw [isShortest, hd]
      simp [hc]

/-! ## Without superfluous zeros -/

/-- The digits without superfluous zeros in front; one digit stays. -/
def trim (cs : List Char) : List Char :=
  match cs.dropWhile (· = '0') with
  | [] => ['0']
  | d :: ds => d :: ds

theorem trim_zero_cons {cs : List Char} : trim ('0' :: cs) = trim cs := rfl

theorem trim_of_head_ne {c : Char} {cs : List Char} (h : c ≠ '0') : trim (c :: cs) = c :: cs := by
  unfold trim
  rw [List.dropWhile_cons_of_neg (by simpa using h)]

theorem allDigits_trim {cs : List Char} (h : allDigits cs = true) : allDigits (trim cs) = true := by
  induction cs with
  | nil => rfl
  | cons c cs ih =>
    by_cases hc : c = '0'
    · subst hc
      exact ih (by simpa [allDigits] using h)
    · rw [trim_of_head_ne hc]
      exact h

theorem value_trim_append (cs ds : List Char) : value (trim cs ++ ds) = value (cs ++ ds) := by
  induction cs with
  | nil => exact value_zero_cons ds
  | cons c cs ih =>
    by_cases hc : c = '0'
    · subst hc
      rw [trim_zero_cons, ih, List.cons_append, value_zero_cons]
    · rw [trim_of_head_ne hc]

/-- Trimmed digits are a single one or start with something else than zero. -/
theorem trim_shape (cs : List Char) :
    (∃ c, trim cs = [c]) ∨ ∃ c ds, trim cs = c :: ds ∧ c ≠ '0' := by
  induction cs with
  | nil => exact Or.inl ⟨'0', rfl⟩
  | cons c cs ih =>
    by_cases hc : c = '0'
    · subst hc
      exact ih
    · exact Or.inr ⟨c, cs, trim_of_head_ne hc, hc⟩

/-! ## Shortest numerals -/

theorem ne_nil_of_isShortest {cs : List Char} (h : isShortest cs = true) : cs ≠ [] := by
  rintro rfl
  cases h

theorem isShortest_singleton {c : Char} {cs : List Char} (h : allDigits (c :: cs) = true) :
    isShortest ((c :: cs).take 1) = true := by
  rw [allDigits, List.all_cons, Bool.and_eq_true] at h
  simp [isShortest, allDigits, h.1]

/-- The front of a shortest numeral is one. -/
theorem isShortest_take {cs : List Char} {k : Nat} (h : isShortest cs = true) (hk : 0 < k) :
    isShortest (cs.take k) = true := by
  obtain ⟨c, cs, rfl⟩ := List.exists_cons_of_ne_nil (ne_nil_of_isShortest h)
  obtain ⟨k, rfl⟩ : ∃ m, k = m + 1 := ⟨k - 1, by omega⟩
  simp only [isShortest, allDigits, Bool.and_eq_true, Bool.or_eq_true, decide_eq_true_eq] at h ⊢
  obtain ⟨⟨_, hdigits⟩, hzero⟩ := h
  refine ⟨⟨rfl, ?_⟩, hzero.imp (fun hone => ?_) id⟩
  · exact List.all_eq_true.2 fun d hd => List.all_eq_true.1 hdigits d (List.mem_of_mem_take hd)
  · exact Nat.le_trans (List.length_take_le' _ _) hone

end Decimal

namespace FixedPoint

/-! ## Canonical literals -/

/-- The places behind the point, filled up with zeros. -/
def places (precision : Nat) (fraction : List Char) : List Char :=
  fraction ++ List.replicate (precision - fraction.length) '0'

/-- The literal with exactly `precision` places and without superfluous zeros in front; without
places there is no point. -/
def canonicalChars (precision : Nat) (cs : List Char) : List Char :=
  let whole := Decimal.trim (wholePart cs)
  if precision = 0 then whole else whole ++ '.' :: places precision (fractionPart cs)

/-- The canonical text of a literal. -/
def canonical (precision : Nat) (literal : String) : String :=
  String.ofList (canonicalChars precision literal.toList)

/-- Digits with at least one in front of the places are written as they stand, unless there is a
superfluous zero in front. -/
theorem writeChars_value {precision : Nat} {whole fraction : List Char}
    (hw : Decimal.allDigits whole = true) (hf : Decimal.allDigits fraction = true)
    (hl : fraction.length = precision)
    (hs : (∃ c, whole = [c]) ∨ ∃ c ds, whole = c :: ds ∧ c ≠ '0') :
    writeChars precision (Decimal.value (whole ++ fraction)) =
      if precision = 0 then whole else whole ++ '.' :: fraction := by
  have hd : Decimal.allDigits (whole ++ fraction) = true := by
    rw [Decimal.allDigits_append, hw, hf]
    rfl
  have hne : whole ++ fraction ≠ [] := by
    rcases hs with ⟨c, rfl⟩ | ⟨c, ds, rfl, _⟩ <;> simp
  obtain ⟨k, hk⟩ := Decimal.eq_zeros_append_write hd hne
  have hlen := congrArg List.length hk
  simp only [List.length_append, List.length_replicate] at hlen
  -- either the zeros in front are the padding, or there are none
  have hpad : List.replicate (precision + 1 -
      (Decimal.write (Decimal.value (whole ++ fraction))).length) '0' ++
        Decimal.write (Decimal.value (whole ++ fraction)) = whole ++ fraction := by
    conv => rhs; rw [hk]
    congr 2
    rcases hs with ⟨c, rfl⟩ | ⟨c, ds, rfl, hc⟩
    · simp only [List.length_singleton] at hlen ⊢
      omega
    · cases k with
      | zero =>
        simp only [List.length_cons] at hlen ⊢
        omega
      | succ k =>
        rw [List.replicate_succ] at hk
        exact absurd (List.cons.inj hk).1 hc
  unfold writeChars
  simp only [hpad, List.length_append, hl, Nat.add_sub_cancel]
  split
  · rename_i h0
    rw [h0] at hl
    rw [List.length_eq_zero_iff.1 hl, List.append_nil]
  · rw [List.take_left, List.drop_left]

/-- Reading a literal and writing it again gives its canonical text. -/
theorem write_of_read {precision n : Nat} {literal : String}
    (h : read precision literal = .ok n) : write precision n = canonical precision literal := by
  unfold read at h
  simp only at h
  split at h
  · cases h
  split at h
  · cases h
  rename_i hdigits
  split at h
  · cases h
  rename_i hfit
  split at h
  · have hall : Decimal.allDigits (wholePart literal.toList) = true ∧
        Decimal.allDigits (fractionPart literal.toList) = true := by
      simpa [Decimal.allDigits_append] using (not_or.1 hdigits).2
    have hplaces : (places precision (fractionPart literal.toList)).length = precision := by
      rw [places, List.length_append, List.length_replicate]
      omega
    have hdp : Decimal.allDigits (places precision (fractionPart literal.toList)) = true := by
      rw [places, Decimal.allDigits_append, hall.2, Decimal.allDigits_zeros]
      rfl
    have hn : n = Decimal.value (Decimal.trim (wholePart literal.toList) ++
        places precision (fractionPart literal.toList)) := by
      cases h
      rw [Decimal.value_trim_append, places, ← List.append_assoc, Decimal.value_append_zeros]
    rw [write, canonical, hn, writeChars_value (Decimal.allDigits_trim hall.1) hdp hplaces
      (Decimal.trim_shape _)]
    rfl
  · cases h

/-! ## Reading what was written -/

/-- What is in front of the places has no superfluous zeros: it is a single digit if zeros had to be
filled in, and otherwise the front of a shortest numeral. -/
theorem isShortest_front (precision n : Nat) :
    let padded := List.replicate (precision + 1 - (Decimal.write n).length) '0' ++ Decimal.write n
    Decimal.isShortest (padded.take (padded.length - precision)) = true := by
  intro padded
  have hlength : padded.length =
      precision + 1 - (Decimal.write n).length + (Decimal.write n).length := by
    rw [List.length_append, List.length_replicate]
  by_cases hshort : (Decimal.write n).length ≤ precision
  · have hdigits : Decimal.allDigits padded = true := by
      rw [Decimal.allDigits_append, Decimal.allDigits_zeros, Decimal.allDigits_write]
      rfl
    rw [show padded.length - precision = 1 by omega]
    obtain ⟨c, cs, hc⟩ := List.exists_cons_of_length_pos (by omega : 0 < padded.length)
    rw [hc] at hdigits ⊢
    exact Decimal.isShortest_singleton hdigits
  · have hpadded : padded = Decimal.write n := by
      show List.replicate _ '0' ++ _ = _
      rw [show precision + 1 - (Decimal.write n).length = 0 by omega]
      rfl
    rw [hpadded]
    exact Decimal.isShortest_take (Decimal.isShortest_write n) (by omega)

/-- A scaled integer is written as a shortest numeral in front of its places. -/
theorem exists_writeChars (precision n : Nat) :
    ∃ whole fraction, writeChars precision n =
        (if precision = 0 then whole else whole ++ '.' :: fraction) ∧
      Decimal.isShortest whole = true ∧ fraction.length = precision ∧
      Decimal.allDigits (whole ++ fraction) = true ∧ Decimal.value (whole ++ fraction) = n := by
  have hpad : ∃ padded, precision < padded.length ∧ Decimal.allDigits padded = true ∧
      Decimal.value padded = n ∧
      Decimal.isShortest (padded.take (padded.length - precision)) = true ∧
      writeChars precision n = if precision = 0 then padded else
        padded.take (padded.length - precision) ++
          '.' :: padded.drop (padded.length - precision) := by
    refine ⟨_, ?_, ?_, ?_, isShortest_front precision n, rfl⟩
    · rw [List.length_append, List.length_replicate]
      omega
    · rw [Decimal.allDigits_append, Decimal.allDigits_zeros, Decimal.allDigits_write]
      rfl
    · rw [Decimal.value_zeros_append, Decimal.value_write]
  obtain ⟨padded, hl, hd, hv, hs, hw⟩ := hpad
  refine ⟨padded.take (padded.length - precision), padded.drop (padded.length - precision),
    ?_, hs, ?_, ?_, ?_⟩
  · rw [hw]
    split
    · rename_i h0
      rw [h0, Nat.sub_zero, List.take_length]
    · rfl
  · rw [List.length_drop]
    omega
  · rw [List.take_append_drop, hd]
  · rw [List.take_append_drop, hv]

/-- Digits around a point are the two parts of a literal; without a point all are in front. -/
theorem parts_of_digits {whole : List Char} (h : Decimal.allDigits whole = true)
    (fraction : List Char) :
    (wholePart (whole ++ '.' :: fraction) = whole ∧
      fractionPart (whole ++ '.' :: fraction) = fraction) ∧
      wholePart whole = whole ∧ fractionPart whole = [] := by
  have hpoint : ∀ c ∈ whole, decide (c ≠ '.') = true := fun c hc =>
    decide_eq_true (Decimal.ne_of_allDigits rfl h c hc)
  unfold wholePart fractionPart
  rw [List.takeWhile_append_of_pos hpoint, List.dropWhile_append_of_pos hpoint,
    List.takeWhile_cons_of_neg (by decide), List.dropWhile_cons_of_neg (by decide),
    List.takeWhile_eq_self_iff.2 hpoint, List.dropWhile_eq_nil_iff.2 hpoint]
  exact ⟨⟨List.append_nil _, rfl⟩, rfl, rfl⟩

/-- A scaled integer that the widest type can hold is read back from its text. -/
theorem read_write {precision n : Nat} (h : n < bound) :
    read precision (write precision n) = .ok n := by
  obtain ⟨whole, fraction, hw, hs, hl, hd, hv⟩ := exists_writeChars precision n
  have hne := Decimal.ne_nil_of_isShortest hs
  have hdigits := hd
  rw [Decimal.allDigits_append, Bool.and_eq_true] at hdigits
  obtain ⟨⟨hwhole, hfraction⟩, hwhole', hfraction'⟩ := parts_of_digits hdigits.1 fraction
  have hparts : wholePart (writeChars precision n) = whole ∧
      fractionPart (writeChars precision n) = fraction := by
    rw [hw]
    split
    · rename_i h0
      rw [hwhole', hfraction', List.eq_nil_of_length_eq_zero (hl.trans h0)]
      exact ⟨rfl, rfl⟩
    · exact ⟨hwhole, hfraction⟩
  have hsign : (writeChars precision n).head? ≠ some '-' := by
    obtain ⟨c, cs, rfl⟩ := List.exists_cons_of_ne_nil hne
    have hc : c ≠ '-' := Decimal.ne_of_allDigits rfl hdigits.1 c (List.mem_cons_self ..)
    rw [hw]
    split
    · simpa using hc
    · simpa using hc
  unfold read
  rw [write, String.toList_ofList]
  simp only [hparts]
  rw [if_neg hsign, if_neg (by simp [hne, hd]), if_neg (by omega), hv, hl, Nat.sub_self,
    Nat.pow_zero, Nat.mul_one, if_pos h]

end FixedPoint

end Abi
