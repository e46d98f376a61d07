/-
  Host values: what a program works with before encoding and after decoding.
-/
import Abi.Address

namespace Abi

/-- A host value. -/
inductive Host where
  /-- An integer or a byte. -/
  | int (n : Nat)
  | bool (b : Bool)
  /-- A decimal, as a literal. -/
  | decimal (literal : String)
  | address (a : Address)
  /-- Raw bytes. -/
  | bytes (bs : Bytes)
  | text (s : String)
  /-- The items of an array. -/
  | list (items : List Host)
  | tuple (items : List Host)
  /-- Named fields, in order. -/
  | struct (fields : List (String × Host))

namespace Host

/-- The word for a host value in a complaint about its type. -/
def kind : Host → String
  | .int _ => "int"
  | .bool _ => "bool"
  | .decimal _ => "decimal"
  | .address _ => "address"
  | .bytes _ => "bytes"
  | .text _ => "str"
  | .list _ => "list"
  | .tuple _ => "tuple"
  | .struct _ => "struct"

mutual

/-- The two values are equal. -/
def beq : Host → Host → Bool
  | .int m, .int n => m = n
  | .bool a, .bool b => a = b
  | .decimal s, .decimal t => s = t
  | .address a, .address b => a = b
  | .bytes s, .bytes t => s = t
  | .text s, .text t => s = t
  | .list xs, .list ys => beqItems xs ys
  | .tuple xs, .tuple ys => beqItems xs ys
  | .struct xs, .struct ys => beqFields xs ys
  | _, _ => false

/-- The values are equal one by one. -/
def beqItems : List Host → List Host → Bool
  | [], [] => true
  | x :: xs, y :: ys => beq x y && beqItems xs ys
  | _, _ => false

/-- The fields are equal one by one, in name and value. -/
def beqFields : List (String × Host) → List (String × Host) → Bool
  | [], [] => true
  | (f, x) :: xs, (g, y) :: ys => f = g && beq x y && beqFields xs ys
  | _, _ => false

end

mutual

theorem beq_iff_eq (x y : Host) : beq x y = true ↔ x = y := by
  cases x <;> cases y <;> simp only [beq, reduceCtorEq, decide_eq_true_eq, Bool.false_eq_true,
    int.injEq, bool.injEq, decimal.injEq, address.injEq, bytes.injEq, text.injEq, list.injEq,
    tuple.injEq, struct.injEq]
  · exact beqItems_iff_eq _ _
  · exact beqItems_iff_eq _ _
  · exact beqFields_iff_eq _ _

theorem beqItems_iff_eq (xs ys : List Host) : beqItems xs ys = true ↔ xs = ys := by
  match xs, ys with
  | [], [] => simp [beqItems]
  | [], _ :: _ => simp [beqItems]
  | _ :: _, [] => simp [beqItems]
  | x :: xs, y :: ys => simp [beqItems, beq_iff_eq x y, beqItems_iff_eq xs ys]

theorem beqFields_iff_eq (xs ys : List (String × Host)) :
    beqFields xs ys = true ↔ xs = ys := by
  match xs, ys with
  | [], [] => simp [beqFields]
  | [], _ :: _ => simp [beqFields]
  | _ :: _, [] => simp [beqFields]
  | (f, x) :: xs, (g, y) :: ys =>
    simp [beqFields, beq_iff_eq x y, beqFields_iff_eq xs ys, and_assoc]

end

instance : DecidableEq Host := fun x y => decidable_of_iff _ (beq_iff_eq x y)

end Host

end Abi
