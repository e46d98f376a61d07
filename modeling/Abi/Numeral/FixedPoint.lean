/-
  Decimals with a fixed number of places, held as an integer scaled by that power of ten.

  A literal may leave out the whole part or the fraction, and may have fewer places than the
  type, but not more: nothing is ever rounded.
-/
import Abi.Error
import Abi.Numeral.Decimal

namespace Abi.FixedPoint

/-- What stands before the first point of a literal. -/
def wholePart (cs : List Char) : List Char := cs.takeWhile (· ≠ '.')

/-- What stands behind the first point of a literal. -/
def fractionPart (cs : List Char) : List Char := (cs.dropWhile (· ≠ '.')).drop 1

/-- The scaled integers: the numbers that the widest type can hold. -/
def bound : Nat := 2 ^ Limits.width

/-- Reads a literal as an integer scaled by `10 ^ precision`. -/
def read (precision : Nat) (literal : String) : Except Error Nat :=
  let cs := literal.toList
  let whole := wholePart cs
  let fraction := fractionPart cs
  if cs.head? = some '-' then .error (.badValue (.negativeDecimal literal))
  else if whole = [] ∧ fraction = [] ∨ ¬ Decimal.allDigits (whole ++ fraction) then
    .error (.badValue (.decimal literal))
  else if precision < fraction.length then
    .error (.badValue (.fractionDigits literal precision))
  else
    let n := Decimal.value (whole ++ fraction) * 10 ^ (precision - fraction.length)
    if n < bound then .ok n else .error (.range "ufixed" literal)

/-- The characters of a scaled integer: its digits, with zeros in front if there are too few of
them, and a point before the last `precision` ones. -/
def writeChars (precision n : Nat) : List Char :=
  let digits := Decimal.write n
  let padded := List.replicate (precision + 1 - digits.length) '0' ++ digits
  let wholeLength := padded.length - precision
  if precision = 0 then padded
  else padded.take wholeLength ++ '.' :: padded.drop wholeLength

/-- The text of a scaled integer. -/
def write (precision n : Nat) : String := String.ofList (writeChars precision n)

end Abi.FixedPoint
