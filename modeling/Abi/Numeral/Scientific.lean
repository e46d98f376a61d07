/-
  Numbers in scientific notation: how they are read, and how a binary one is written.

  A text without point and power of ten is an integer as far as a word of 64 bits goes; every
  other number is a binary one.
-/
import Abi.Numeral.Binary64
import Abi.Numeral.Decimal

namespace Abi

/-- A number as a text writes it. -/
structure Scientific where
  negative : Bool
  whole : List Char
  /-- The digits behind the point, if there is a point. -/
  fraction : Option (List Char)
  /-- The power of ten, if one is written. -/
  power : Option Int
deriving DecidableEq, Repr

namespace Scientific

/-! ## Reading -/

/-- The digits at the start of a text, if there are any, and the rest. -/
def readDigits? (cs : List Char) : Option (List Char × List Char) :=
  match cs.takeWhile Char.isDigit with
  | [] => none
  | digits => some (digits, cs.dropWhile Char.isDigit)

/-- The digits behind a point. -/
def readFraction? : List Char → Option (Option (List Char) × List Char)
  | '.' :: cs => (readDigits? cs).map fun (digits, rest) => (some digits, rest)
  | cs => some (none, cs)

/-- The power of ten behind its mark. -/
def readPower? : List Char → Option (Option Int × List Char)
  | [] => some (none, [])
  | c :: cs =>
    if c = 'e' ∨ c = 'E' then
      match cs with
      | '-' :: cs => (readDigits? cs).map fun (ds, rest) => (some (-(Decimal.value ds : Int)), rest)
      | '+' :: cs => (readDigits? cs).map fun (ds, rest) => (some (Decimal.value ds), rest)
      | cs => (readDigits? cs).map fun (ds, rest) => (some (Decimal.value ds), rest)
    else some (none, c :: cs)

/-- Reads a number without its sign. -/
def readUnsigned? (negative : Bool) (cs : List Char) : Option Scientific := do
  let (whole, cs) ← readDigits? cs
  let (fraction, cs) ← readFraction? cs
  let (power, cs) ← readPower? cs
  if cs.isEmpty then some ⟨negative, whole, fraction, power⟩ else none

/-- Reads a number. -/
def read? : List Char → Option Scientific
  | '-' :: cs => readUnsigned? true cs
  | cs => readUnsigned? false cs

/-! ## Values -/

/-- The numbers that a word of 64 bits can hold. -/
def wordBound : Nat := 2 ^ (64 : Nat)

/-- Puts digits behind a number as long as a word can hold it; answers the digits that are left
over, too. -/
def absorb (n : Nat) : List Char → Nat × List Char
  | [] => (n, [])
  | c :: cs =>
    let next := 10 * n + (c.toNat - '0'.toNat)
    if next < wordBound then absorb next cs else (n, c :: cs)

/-- The integer that is written, if it is one and a word can hold it. Zero has no sign. -/
def toInt? (s : Scientific) : Option Int :=
  match s.fraction, s.power, absorb 0 s.whole with
  | none, none, (n, []) =>
    if ¬ s.negative then some n
    else if 0 < n ∧ n ≤ wordBound / 2 then some (-(n : Int))
    else none
  | _, _, _ => none

/-- The magnitude, unless it is too large. Digits that a word cannot hold count as places only. -/
def toBinary64? (s : Scientific) : Option Binary64 := do
  let fraction := s.fraction.getD []
  let (n, places) := absorb 0 s.whole
  let (n, rest) := absorb n fraction
  let power := s.power.getD 0 + places.length - (fraction.length - rest.length : Nat)
  let x ← Binary64.ofNat? n
  if 0 ≤ power then x.scaleUp? power.toNat else x.scaleDown? (-power).toNat

/-! ## Writing -/

/-- Which numbers are written without a power of ten: those whose first digit has a place in this
range, counted from the units. -/
def isPositional (place : Int) : Bool := -5 ≤ place && place ≤ 15

/-- The digits of a number whose first digit stands at a place, with a point and at least one
digit on either side of it. -/
def positional (digits : List Char) (place : Int) : List Char :=
  if place < 0 then '0' :: '.' :: List.replicate ((-place).toNat - 1) '0' ++ digits
  else
    let count := place.toNat + 1
    let whole := digits.take count ++ List.replicate (count - digits.length) '0'
    let fraction := digits.drop count
    whole ++ '.' :: (if fraction = [] then ['0'] else fraction)

/-- The digits with a point behind the first one, and the power of ten with a sign. -/
def withPower (digits : List Char) (place : Int) : List Char :=
  let fraction := digits.drop 1
  let sign := if place < 0 then '-' else '+'
  digits.take 1 ++ (if fraction = [] then [] else '.' :: fraction) ++
    'e' :: sign :: Decimal.write place.natAbs

/-- The text of a binary number, with the fewest digits that tell it from the others. -/
def write (negative : Bool) (x : Binary64) : String :=
  let ten := x.shortest
  let digits := Decimal.write ten.digits
  let place := ten.exponent + digits.length - 1
  let body :=
    if x.significand = 0 then ['0', '.', '0']
    else if isPositional place then positional digits place
    else withPower digits place
  String.ofList (if negative then '-' :: body else body)

end Scientific

end Abi
