/-
  From parts to bytes: a head with the inline bytes, the packed booleans and the offsets, and
  behind it the tail.

  `assemble_eq_ok_iff`: that succeeds exactly if a word can hold every offset.
-/
import Abi.Layout.Bits
import Abi.Layout.Slot
import Abi.Layout.Word

namespace Abi.Layout

/-! ## Cells -/

/-- What the head holds once booleans are packed. -/
inductive Cell where
  /-- Bytes that stand in the head. -/
  | inline (bytes : Bytes)
  /-- Bytes that stand in the tail; the head holds their offset. -/
  | tail (bytes : Bytes)
deriving DecidableEq, Repr

/-- The byte of the booleans that are still unwritten, if there are any. -/
def flush : List Bool → List Cell
  | [] => []
  | b :: bs => [.inline [pack (b :: bs)]]

/-- Packs every eight adjacent booleans into one byte; `pending` are the booleans just before
the parts, fewer than eight. -/
def cells (pending : List Bool) : List Part → List Cell
  | [] => flush pending
  | .bit b :: ps =>
    if pending.length + 1 < Limits.boolsPerByte then cells (pending ++ [b]) ps
    else .inline [pack (pending ++ [b])] :: cells [] ps
  | .inline bs :: ps => flush pending ++ .inline bs :: cells [] ps
  | .tail bs :: ps => flush pending ++ .tail bs :: cells [] ps

/-! ## Head and tail -/

/-- The bytes that a cell takes in the head. -/
def Cell.headLength : Cell → Nat
  | .inline bs => bs.length
  | .tail _ => Limits.wordBytes

/-- The bytes that a cell adds to the tail. -/
def Cell.tailBytes : Cell → Bytes
  | .inline _ => []
  | .tail bs => bs

/-- The length of the head. -/
def headLength : List Cell → Nat
  | [] => 0
  | c :: cs => c.headLength + headLength cs

/-- The tail. -/
def tailBytes (cs : List Cell) : Bytes := cs.flatMap Cell.tailBytes

/-- Where each dynamic child starts, if the first starts at `start`. -/
def offsets (start : Nat) : List Cell → List Nat
  | [] => []
  | .inline _ :: cs => offsets start cs
  | .tail bs :: cs => start :: offsets (start + bs.length) cs

/-- The head, if the first dynamic child starts at `start`. -/
def headBytes (start : Nat) : List Cell → Bytes
  | [] => []
  | .inline bs :: cs => bs ++ headBytes start cs
  | .tail bs :: cs => Word.bytes start ++ headBytes (start + bs.length) cs

/-- Head and tail of cells whose offsets all fit. -/
def bytesOfCells (cs : List Cell) : Bytes := headBytes (headLength cs) cs ++ tailBytes cs

/-- Writes a sequence; fails at the first offset that a word cannot hold. -/
def assemble (ps : List Part) : Except Error Bytes :=
  let cs := cells [] ps
  match (offsets (headLength cs) cs).find? (Limits.word < ·) with
  | some offset => .error (.oversize (.word offset))
  | none => .ok (bytesOfCells cs)

/-! ## What is assembled -/

theorem length_headBytes (start : Nat) (cs : List Cell) :
    (headBytes start cs).length = headLength cs := by
  induction cs generalizing start with
  | nil => rfl
  | cons c cs ih =>
    cases c <;> simp [headBytes, headLength, Cell.headLength, Limits.wordBytes] at ih ⊢ <;>
      rw [ih]

theorem length_bytesOfCells (cs : List Cell) :
    (bytesOfCells cs).length = headLength cs + (tailBytes cs).length := by
  simp [bytesOfCells, length_headBytes]

/-- A sequence is written exactly if every offset fits into a word. -/
theorem assemble_eq_ok_iff {ps : List Part} {bs : Bytes} :
    assemble ps = .ok bs ↔
      (∀ o ∈ offsets (headLength (cells [] ps)) (cells [] ps), o ≤ Limits.word) ∧
        bs = bytesOfCells (cells [] ps) := by
  simp only [assemble]
  split
  · rename_i o ho
    have hlt := List.find?_some ho
    have hm := List.mem_of_find?_eq_some ho
    simp only [decide_eq_true_eq] at hlt
    simp only [reduceCtorEq, false_iff, not_and]
    intro h
    have := h o hm
    omega
  · rename_i ho
    rw [List.find?_eq_none] at ho
    simp only [decide_eq_true_eq, Nat.not_lt] at ho
    exact ⟨fun h => ⟨ho, by cases h; rfl⟩, fun h => by rw [h.2]⟩

end Abi.Layout
