/-
  The name of a type, and the sameness of types that it decides.

  A struct is named as the tuple of its field types is, so the two are the same type
  (`struct_same_tuple`).
-/
import Abi.Numeral.Decimal
import Abi.Ty.Basic

namespace Abi.Ty

/-! ## Keywords -/

namespace Keyword

/-- Begins the name of an integer type. -/
def uint : List Char := ['u', 'i', 'n', 't']

/-- Names the type of a byte. -/
def byte : List Char := ['b', 'y', 't', 'e']

/-- Names the type of a truth value. -/
def bool : List Char := ['b', 'o', 'o', 'l']

/-- Begins the name of a fixed-point type. -/
def ufixed : List Char := ['u', 'f', 'i', 'x', 'e', 'd']

/-- Names the type of an address. -/
def address : List Char := ['a', 'd', 'd', 'r', 'e', 's', 's']

/-- Names the type of a text. -/
def string : List Char := ['s', 't', 'r', 'i', 'n', 'g']

end Keyword

/-! ## Names -/

/-- Items between parentheses, with commas in between. -/
def parenthesized (items : List (List Char)) : List Char :=
  '(' :: ([','].intercalate items ++ [')'])

mutual

/-- The characters of a type's name. -/
def nameChars : Ty → List Char
  | .uint width => Keyword.uint ++ Decimal.write width
  | .byte => Keyword.byte
  | .bool => Keyword.bool
  | .ufixed width precision =>
    Keyword.ufixed ++ Decimal.write width ++ 'x' :: Decimal.write precision
  | .array item size => item.nameChars ++ '[' :: (Decimal.write size ++ [']'])
  | .address => Keyword.address
  | .list item => item.nameChars ++ ['[', ']']
  | .tuple items => parenthesized (namesChars items)
  | .struct _ fields _ => parenthesized (fieldNamesChars fields)
  | .string => Keyword.string

/-- The characters of the names of several types. -/
def namesChars : List Ty → List (List Char)
  | [] => []
  | t :: ts => t.nameChars :: namesChars ts

/-- The characters of the names of the types of several fields. -/
def fieldNamesChars : List (String × Ty) → List (List Char)
  | [] => []
  | (_, t) :: fs => t.nameChars :: fieldNamesChars fs

end

theorem namesChars_eq_map (ts : List Ty) : namesChars ts = ts.map nameChars := by
  induction ts with
  | nil => rfl
  | cons t ts ih => simp [namesChars, ih]

theorem fieldNamesChars_eq (fs : List (String × Ty)) :
    fieldNamesChars fs = namesChars (fs.map (·.2)) := by
  induction fs with
  | nil => rfl
  | cons f fs ih => simp [fieldNamesChars, namesChars, ih]

/-- The name of a type. -/
def name (t : Ty) : String := String.ofList t.nameChars

/-! ## Sameness -/

/-- Two types are the same if they have one name. -/
def Same (s t : Ty) : Prop := s.name = t.name

instance (s t : Ty) : Decidable (s.Same t) := inferInstanceAs (Decidable (_ = _))

theorem same_iff {s t : Ty} : s.Same t ↔ s.nameChars = t.nameChars := by
  simp [Same, name, String.ofList_inj]

theorem Same.refl (t : Ty) : t.Same t := rfl

theorem Same.symm {s t : Ty} (h : s.Same t) : t.Same s := Eq.symm h

theorem Same.trans {s t u : Ty} (h : s.Same t) (h' : t.Same u) : s.Same u := Eq.trans h h'

/-- A struct is the same type as the tuple of its field types. -/
theorem struct_same_tuple (name : String) (fields : List (String × Ty)) (frozen : Bool) :
    (struct name fields frozen).Same (tuple (fields.map (·.2))) := by
  simp only [same_iff, nameChars, fieldNamesChars_eq]

/-- Both lists hold the same types in the same order. -/
def SameAll (ss ts : List Ty) : Prop := ss.map name = ts.map name

instance (ss ts : List Ty) : Decidable (SameAll ss ts) := inferInstanceAs (Decidable (_ = _))

/-- The first of each group of same types, in order. -/
def distinct (ts : List Ty) : List Ty := ts.eraseDupsBy fun s t => s.Same t

end Abi.Ty
