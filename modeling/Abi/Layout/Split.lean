/-
  From bytes to the bytes of each child: the head is read slot by slot, and the offsets found in
  it cut the tail.

  `length_split`: there is one child for each slot.
-/
import Abi.Layout.Bits
import Abi.Layout.Slot
import Abi.Layout.Word

namespace Abi.Layout

/-! ## Reading the head -/

/-- What the head says about a child. -/
inductive Entry where
  /-- The child's bytes. -/
  | inline (bytes : Bytes)
  /-- Where the child's bytes start. -/
  | start (offset : Nat)
deriving DecidableEq, Repr

/-- The byte that stands for a boolean by itself. -/
def boolByte (b : Bool) : UInt8 := if b then Limits.trueByte else Limits.falseByte

/-- The next boolean: one of the unread `bits` of the last byte, or the first of a new byte. -/
def nextBit : List Bool → Bytes → Option (Bool × List Bool × Bytes)
  | b :: bits, rest => some (b, bits, rest)
  | [], [] => none
  | [], x :: rest =>
    match unpack x with
    | b :: bits => some (b, bits, rest)
    | [] => none

/-- Reads the head; `bits` are those of the byte just before that no boolean has taken. Answers
the entries and what stands behind the head. -/
def readHead (bits : List Bool) : List Slot → Bytes → Option (List Entry × Bytes)
  | [], rest => some ([], rest)
  | .bit :: slots, rest => do
    let (b, bits, rest) ← nextBit bits rest
    let (entries, rest) ← readHead bits slots rest
    return (.inline [boolByte b] :: entries, rest)
  | .inline size :: slots, rest => do
    let (bytes, rest) ← rest.takeExactly? size
    let (entries, rest) ← readHead [] slots rest
    return (.inline bytes :: entries, rest)
  | .offset :: slots, rest => do
    let (word, rest) ← rest.takeExactly? Limits.wordBytes
    let (entries, rest) ← readHead [] slots rest
    return (.start (BigEndian.decode word) :: entries, rest)

/-! ## Cutting the tail -/

/-- The offsets in the head, in order. -/
def starts : List Entry → List Nat
  | [] => []
  | .inline _ :: es => starts es
  | .start o :: es => o :: starts es

/-- Each offset lies in the tail and not before the one ahead of it; the first one that does not
is an error. -/
def checkStarts (total low : Nat) : List Nat → Except Error Unit
  | [] => .ok ()
  | o :: os =>
    if o < low ∨ total < o then .error (.malformed (.offset o low total))
    else checkStarts total o os

/-- Cuts bytes that begin at `start` wherever another child starts. -/
def segments (start : Nat) : List Nat → Bytes → List Bytes
  | [], body => [body]
  | next :: more, body =>
    body.take (next - start) :: segments next more (body.drop (next - start))

/-- Puts the segments in the places of the offsets. -/
def fill : List Entry → List Bytes → List Bytes
  | [], _ => []
  | .inline bs :: es, segs => bs :: fill es segs
  | .start _ :: es, seg :: segs => seg :: fill es segs
  | .start _ :: es, [] => [] :: fill es []

/-- Reads a sequence into the bytes of its children. -/
def split (slots : List Slot) (buffer : Bytes) : Except Error (List Bytes) :=
  match readHead [] slots buffer with
  | none => .error (.malformed .truncated)
  | some (entries, rest) =>
    let headLength := buffer.length - rest.length
    match starts entries with
    | [] => if rest.isEmpty then .ok (fill entries []) else .error (.malformed .leftover)
    | first :: more => do
      checkStarts buffer.length headLength (first :: more)
      return fill entries (segments first more (rest.drop (first - headLength)))

/-! ## Lengths -/

theorem length_readHead {bits : List Bool} {slots : List Slot} {bs rest : Bytes}
    {entries : List Entry} (h : readHead bits slots bs = some (entries, rest)) :
    entries.length = slots.length := by
  induction slots generalizing bits bs entries with
  | nil => simp [readHead] at h; simp [← h.1]
  | cons s slots ih =>
    cases s <;>
    · simp only [readHead, bind, pure, Option.bind_eq_some_iff] at h
      obtain ⟨_, _, ⟨es, r⟩, h', he⟩ := h
      cases he
      simp [ih h']

theorem length_fill (es : List Entry) (segs : List Bytes) : (fill es segs).length = es.length := by
  induction es generalizing segs with
  | nil => rfl
  | cons e es ih => cases e <;> cases segs <;> simp [fill, ih]

/-- A sequence that is read has as many children as slots. -/
theorem length_split {slots : List Slot} {buffer : Bytes} {children : List Bytes}
    (h : split slots buffer = .ok children) : children.length = slots.length := by
  simp only [split] at h
  split at h
  · cases h
  · rename_i entries rest hr
    rw [← length_readHead hr]
    split at h
    · split at h
      · cases h; exact length_fill _ _
      · cases h
    · rename_i first more _
      simp only [bind, Except.bind, pure, Except.pure] at h
      split at h
      · cases h
      · cases h; exact length_fill _ _

end Abi.Layout
