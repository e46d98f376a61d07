/-
  Magnitudes of binary floating point in 64 bits, and the shortest decimal that tells one from
  the others.

  A magnitude is a number of steps of `2 ^ -1074`, so all of this is exact arithmetic on natural
  numbers.
-/
import Abi.Limits

namespace Abi

/-- The magnitude of `significand * 2 ^ shift` steps. The significand has at most 53 bits, and
exactly that many if the shift is not zero. -/
structure Binary64 where
  significand : Nat
  shift : Nat
deriving DecidableEq, Repr

namespace Binary64

/-- The bits of a significand. -/
def precision : Nat := 53

/-- The largest shift. -/
def maxShift : Nat := 2045

/-- The steps in the number one. -/
def one : Nat := 2 ^ (1074 : Nat)

/-- The number of steps. -/
def steps (x : Binary64) : Nat := x.significand * 2 ^ x.shift

/-! ## Rounding -/

/-- The natural number nearest to a quotient; a half goes to the even neighbour. -/
def divNearest (a b : Nat) : Nat :=
  if b < 2 * (a % b) ∨ 2 * (a % b) = b ∧ a / b % 2 = 1 then a / b + 1 else a / b

/-- The magnitude nearest to a quotient of steps, unless it is too large. -/
def round? (a b : Nat) : Option Binary64 :=
  let shift := Nat.log2 (a / b) + 1 - precision
  let significand := divNearest a (b * 2 ^ shift)
  let x : Binary64 :=
    if significand < 2 ^ precision then ⟨significand, shift⟩
    else ⟨2 ^ (precision - 1), shift + 1⟩
  if x.shift ≤ maxShift then some x else none

/-- The magnitude nearest to a natural number. -/
def ofNat? (n : Nat) : Option Binary64 := round? (n * one) 1

/-- The product, rounded. -/
def mul? (x y : Binary64) : Option Binary64 := round? (x.steps * y.steps) one

/-- The quotient, rounded. -/
def div? (x y : Binary64) : Option Binary64 := round? (x.steps * one) y.steps

/-! ## Powers of ten -/

/-- The largest power of ten that is a magnitude. -/
def maxPower : Nat := 308

/-- A number times a power of ten. The two are rounded on their own, and so is their product. -/
def scaleUp? (x : Binary64) (power : Nat) : Option Binary64 :=
  if power ≤ maxPower then do x.mul? (← ofNat? (10 ^ power))
  else if x.significand = 0 then some x
  else none

/-- A number divided by a power of ten, in rounded steps of at most `10 ^ maxPower`. -/
def scaleDown? (x : Binary64) (power : Nat) : Option Binary64 :=
  if power ≤ maxPower then do x.div? (← ofNat? (10 ^ power))
  else if x.significand = 0 then some x
  else do (← x.div? (← ofNat? (10 ^ maxPower))).scaleDown? (power - maxPower)
termination_by power
decreasing_by simp only [maxPower] at *; omega

/-! ## The shortest decimal -/

/-- The real numbers that round to a magnitude, in quarters of a step: those between the two
ends, and the ends themselves if the significand is even. -/
structure Interval where
  low : Nat
  high : Nat
  closed : Bool

/-- The numbers that round to a magnitude. The gap to the magnitude below is half as wide where
the shift changes. -/
def interval (x : Binary64) : Interval :=
  let below := if x.significand = 2 ^ (precision - 1) ∧ 0 < x.shift then 1 else 2
  ⟨(4 * x.significand - below) * 2 ^ x.shift, (4 * x.significand + 2) * 2 ^ x.shift,
    x.significand % 2 = 0⟩

/-- A decimal, `digits * 10 ^ exponent`. -/
structure Ten where
  digits : Nat
  exponent : Int
deriving DecidableEq, Repr

/-- The interval holds the decimal. -/
def Interval.contains (i : Interval) (d : Ten) : Bool :=
  let quarters := 4 * d.digits * 10 ^ d.exponent.toNat * one
  let low := i.low * 10 ^ (-d.exponent).toNat
  let high := i.high * 10 ^ (-d.exponent).toNat
  (low < quarters && quarters < high) || i.closed && (low = quarters || quarters = high)

/-- The multiple of a power of ten nearest to a magnitude, if one of its two neighbours rounds to
it; of two that are equally near the even one. -/
def multiple? (x : Binary64) (exponent : Int) : Option Ten :=
  let a := x.steps * 10 ^ (-exponent).toNat
  let b := one * 10 ^ exponent.toNat
  let nearest : Ten := ⟨divNearest a b, exponent⟩
  let below : Ten := ⟨a / b, exponent⟩
  let above : Ten := ⟨a / b + 1, exponent⟩
  [nearest, below, above].find? x.interval.contains

/-- The exponents that are tried, the largest first. -/
def exponents : List Int := (List.range 660).map fun i : Nat => 310 - (i : Int)

/-- The decimal with the fewest digits that rounds to a magnitude, and of those the nearest. -/
def shortest (x : Binary64) : Ten := (exponents.findSome? x.multiple?).getD ⟨0, 0⟩

end Binary64

end Abi
