/-
  Numerals of a fixed number of digits in any base, most significant digit first.

  `value_digits` and `digits_value` say that the two directions undo each other: a number is
  kept modulo the power of the base that the width allows, a digit string is kept as it is.
-/
import Abi.Limits

namespace Abi.Numeral

/-- The number that a digit string denotes in base `b`. -/
def value (b : Nat) (ds : List Nat) : Nat := ds.foldl (fun acc d => acc * b + d) 0

/-- The last `w` digits of `n` in base `b`. -/
def digits (b : Nat) : Nat → Nat → List Nat
  | 0, _ => []
  | w + 1, n => digits b w (n / b) ++ [n % b]

@[simp] theorem value_nil (b : Nat) : value b [] = 0 := rfl

theorem value_concat (b : Nat) (ds : List Nat) (d : Nat) :
    value b (ds ++ [d]) = value b ds * b + d := by
  simp [value]

theorem value_append (b : Nat) (xs ys : List Nat) :
    value b (xs ++ ys) = value b xs * b ^ ys.length + value b ys := by
  induction ys generalizing xs with
  | nil => simp
  | cons y ys ih =>
    have h : xs ++ y :: ys = (xs ++ [y]) ++ ys := by simp
    have h' : y :: ys = [y] ++ ys := rfl
    rw [h, ih, value_concat, h', ih [y]]
    simp only [value, List.foldl_cons, List.foldl_nil, Nat.zero_mul, Nat.zero_add,
      List.length_append, List.length_cons, List.length_nil, Nat.pow_add, Nat.add_mul]
    rw [Nat.mul_assoc, Nat.pow_one, Nat.add_assoc]

@[simp] theorem length_digits (b w n : Nat) : (digits b w n).length = w := by
  induction w generalizing n with
  | zero => rfl
  | succ w ih => simp [digits, ih]

theorem digits_lt {b : Nat} (hb : 0 < b) (w n : Nat) : ∀ d ∈ digits b w n, d < b := by
  induction w generalizing n with
  | zero => simp [digits]
  | succ w ih =>
    intro d hd
    rcases List.mem_append.1 hd with h | h
    · exact ih _ d h
    · rw [List.mem_singleton.1 h]; exact Nat.mod_lt _ hb

theorem value_digits (b w n : Nat) : value b (digits b w n) = n % b ^ w := by
  induction w generalizing n with
  | zero => simp [digits, Nat.mod_one]
  | succ w ih =>
    rw [digits, value_concat, ih, Nat.pow_succ, Nat.mul_comm (b ^ w) b, Nat.mod_mul]
    rw [Nat.mul_comm, Nat.add_comm]

theorem value_lt {b : Nat} {ds : List Nat} (h : ∀ d ∈ ds, d < b) : value b ds < b ^ ds.length := by
  induction ds with
  | nil => simp
  | cons d ds ih =>
    have hd : d < b := h d (by simp)
    have hds := ih (fun x hx => h x (by simp [hx]))
    have hv : value b (d :: ds) = d * b ^ ds.length + value b ds := by
      have := value_append b [d] ds
      simpa [value] using this
    rw [hv, List.length_cons, Nat.pow_succ, Nat.mul_comm (b ^ ds.length) b]
    calc d * b ^ ds.length + value b ds
        < d * b ^ ds.length + b ^ ds.length := by omega
      _ = (d + 1) * b ^ ds.length := by rw [Nat.add_mul, Nat.one_mul]
      _ ≤ b * b ^ ds.length := Nat.mul_le_mul_right _ hd

theorem digits_concat {b : Nat} {n d : Nat} (w : Nat) (hd : d < b) :
    digits b (w + 1) (n * b + d) = digits b w n ++ [d] := by
  have hb : 0 < b := by omega
  rw [digits, Nat.mul_comm n b, Nat.mul_add_div hb, Nat.div_eq_of_lt hd, Nat.add_zero,
    Nat.mul_add_mod, Nat.mod_eq_of_lt hd]

theorem digits_value {b : Nat} {ds : List Nat} (h : ∀ d ∈ ds, d < b) :
    digits b ds.length (value b ds) = ds := by
  suffices H : ∀ rs : List Nat, (∀ d ∈ rs, d < b) →
      digits b rs.length (value b rs.reverse) = rs.reverse by
    have := H ds.reverse (by simpa using h)
    simpa using this
  intro rs
  induction rs with
  | nil => intro _; rfl
  | cons r rs ih =>
    intro hr
    rw [List.reverse_cons, value_concat, List.length_cons, digits_concat _ (hr r (by simp)),
      ih (fun d hd => hr d (by simp [hd]))]

end Abi.Numeral
