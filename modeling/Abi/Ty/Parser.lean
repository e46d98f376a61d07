/-
  Reading a type from its name.

  The last characters of a text decide what it is: brackets make an array of what stands before
  them, so that only then the rest is read.
-/
import Abi.Ty.Commas
import Abi.Ty.Name

namespace Abi.Ty

/-! ## Forms -/

/-- How the text of a type is built, judged from its ends. -/
inductive Form where
  /-- An item type with empty brackets behind it. -/
  | list (item : List Char)
  /-- An item type with a size in brackets behind it. -/
  | array (item size : List Char)
  /-- A closing bracket that nothing opens. -/
  | unopened
  /-- A text between parentheses. -/
  | tuple (body : List Char)
  /-- Any other text. -/
  | plain

/-- The form of a text. The bracket that opens a size is the last one of the text. -/
def formOf (s : List Char) : Form :=
  match s.reverse with
  | ']' :: '[' :: item => .list item.reverse
  | ']' :: body =>
    match body.dropWhile (· ≠ '[') with
    | [] => .unopened
    | _ :: item => .array item.reverse (body.takeWhile (· ≠ '[')).reverse
  | ')' :: body =>
    match body.reverse with
    | '(' :: inner => .tuple inner
    | _ => .plain
  | _ => .plain

theorem length_of_formOf_list {s item : List Char} (h : formOf s = .list item) :
    item.length < s.length := by
  rw [← @List.length_reverse _ s]
  simp only [formOf] at h
  split at h
  · rename_i e
    cases h
    rw [e]
    simp only [List.length_reverse, List.length_cons]
    omega
  · split at h <;> cases h
  · split at h <;> cases h
  · cases h

theorem length_of_formOf_array {s item size : List Char} (h : formOf s = .array item size) :
    item.length < s.length := by
  rw [← @List.length_reverse _ s]
  simp only [formOf] at h
  split at h
  · cases h
  · rename_i body _ e
    split at h
    · cases h
    · rename_i c rest hd
      cases h
      have hle := (@List.dropWhile_suffix _ body fun c => decide (c ≠ '[')).length_le
      rw [hd] at hle
      rw [e]
      simp only [List.length_reverse, List.length_cons] at hle ⊢
      omega
  · split at h <;> cases h
  · cases h

theorem length_of_formOf_tuple {s body : List Char} (h : formOf s = .tuple body) :
    body.length < s.length := by
  rw [← @List.length_reverse _ s]
  simp only [formOf] at h
  split at h
  · cases h
  · split at h <;> cases h
  · rename_i rest e
    split at h
    · rename_i inner hr
      cases h
      rw [e, List.length_cons, ← @List.length_reverse _ rest, hr]
      simp only [List.length_cons]
      omega
    · cases h
  · cases h

/-! ## Types that are not made of others -/

/-- The text up to the first character `c` and the text behind it. -/
def splitOnce? (c : Char) (s : List Char) : Option (List Char × List Char) :=
  match s.dropWhile (· ≠ c) with
  | [] => none
  | _ :: rest => some (s.takeWhile (· ≠ c), rest)

/-- Reads a fixed-point type; `rest` is what follows the first word of the text `s`. -/
def parseUFixed (s rest : List Char) : Except Error Ty := do
  let some (width, precision) := splitOnce? 'x' rest
    | throw (.badType (.noPrecision (String.ofList s)))
  let some width := Decimal.readBelow? (2 ^ (16 : Nat)) width
    | throw (.badType (.ufixedWidth (String.ofList s)))
  let some precision := Decimal.readBelow? (2 ^ (8 : Nat)) precision
    | throw (.badType (.ufixedPrecision (String.ofList s)))
  ofPrecision width precision

/-- Reads an integer type; `rest` is what follows the first word of the text `s`. -/
def parseUInt (s rest : List Char) : Except Error Ty := do
  let some width := Decimal.readBelow? (2 ^ (16 : Nat)) rest
    | throw (.badType (.uintWidth (String.ofList s)))
  ofWidth width

/-- Reads a type that is not made of others. -/
def parsePlain (s : List Char) : Except Error Ty :=
  if s = Keyword.bool then .ok .bool
  else if s = Keyword.byte then .ok .byte
  else if s = Keyword.address then .ok .address
  else if s = Keyword.string then .ok .string
  else
    match Keyword.ufixed.isPrefixOf? s with
    | some rest => parseUFixed s rest
    | none =>
      match Keyword.uint.isPrefixOf? s with
      | some rest => parseUInt s rest
      | none => .error (.badType (.unknown (String.ofList s)))

/-! ## All types -/

/-- Reads a type from the characters of its name. -/
def parseChars (s : List Char) : Except Error Ty :=
  match h : formOf s with
  | .list item => do
    have := length_of_formOf_list h
    return .list (← parseChars item)
  | .array item size => do
    have := length_of_formOf_array h
    let some size := Decimal.readBelow? (Limits.size + 1) size
      | throw (.badType (.arraySize (String.ofList s)))
    return .array (← parseChars item) size
  | .unopened => .error (.badType (.unopened (String.ofList s)))
  | .tuple body =>
    match hp : splitTuple body with
    | none => .error (.badType (.parentheses (String.ofList body)))
    | some parts => do
      let items ← parts.attach.mapM fun ⟨part, hm⟩ =>
        have := length_le_of_mem_splitTuple hp hm
        have := length_of_formOf_tuple h
        parseChars part
      return .tuple items
  | .plain => parsePlain s
termination_by s.length

/-- Reads a type from its name. -/
def parse (s : String) : Except Error Ty := parseChars s.toList

end Abi.Ty
