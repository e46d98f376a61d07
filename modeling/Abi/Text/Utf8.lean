/-
  UTF-8: text as bytes, bytes as text, and where ill-formed bytes go wrong.

  `decode_eq_ok_iff`: bytes are read as a text exactly if they are the bytes of that text.
-/
import Abi.Bytes

namespace Abi.Utf8

/-- The bytes of a text. -/
def encode (s : String) : Bytes := s.toByteArray.data.toList

/-! ## Faults -/

/-- Where a byte string stops being UTF-8. -/
structure Fault where
  /-- The length of the longest well-formed beginning. -/
  validBytes : Nat
  /-- The length of the ill-formed part; none if the bytes end within a character. -/
  badBytes : Option Nat
deriving DecidableEq, Repr

/-- The range of a byte that follows a lead byte, both ends included. -/
structure Follower where
  low : UInt8
  high : UInt8

/-- Any byte that may follow. -/
def anyFollower : Follower := ⟨0x80, 0xBF⟩

/-- The bytes that complete a character with this first byte, or none if no character starts so.
Overlong forms, surrogates and numbers above 10FFFF are cut off at the second byte. -/
def followers (lead : UInt8) : Option (List Follower) :=
  if lead ≤ 0x7F then some []
  else if lead < 0xC2 then none
  else if lead ≤ 0xDF then some [anyFollower]
  else if lead = 0xE0 then some [⟨0xA0, 0xBF⟩, anyFollower]
  else if lead = 0xED then some [⟨0x80, 0x9F⟩, anyFollower]
  else if lead ≤ 0xEF then some [anyFollower, anyFollower]
  else if lead = 0xF0 then some [⟨0x90, 0xBF⟩, anyFollower, anyFollower]
  else if lead ≤ 0xF3 then some [anyFollower, anyFollower, anyFollower]
  else if lead = 0xF4 then some [⟨0x80, 0x8F⟩, anyFollower, anyFollower]
  else none

/-- Walks over the bytes: `valid` of them are known to be well-formed, `seen` more have started
a character that `pending` would complete. -/
def scan (valid seen : Nat) (pending : List Follower) : Bytes → Option Fault
  | [] => if pending.isEmpty then none else some ⟨valid, none⟩
  | b :: bs =>
    match pending with
    | [] =>
      match followers b with
      | none => some ⟨valid, some 1⟩
      | some [] => scan (valid + 1) 0 [] bs
      | some (f :: fs) => scan valid 1 (f :: fs) bs
    | f :: fs =>
      if f.low ≤ b ∧ b ≤ f.high then
        if fs.isEmpty then scan (valid + seen + 1) 0 [] bs else scan valid (seen + 1) fs bs
      else some ⟨valid, some seen⟩

/-- The first fault of a byte string. -/
def fault? (bs : Bytes) : Option Fault := scan 0 0 [] bs

/-! ## Decoding -/

/-- The text with these bytes, or the first fault. -/
def decode (bs : Bytes) : Except Fault String :=
  match String.fromUTF8? ⟨bs.toArray⟩ with
  | some s => .ok s
  | none => .error ((fault? bs).getD ⟨bs.length, none⟩)

/-- The sentence that describes a fault. -/
def Fault.message (f : Fault) : String :=
  let start := f.validBytes
  match f.badBytes with
  | some n => s!"invalid utf-8 sequence of {n} bytes from index {start}"
  | none => s!"incomplete utf-8 byte sequence from index {start}"

theorem toArray_encode (s : String) : (⟨(encode s).toArray⟩ : ByteArray) = s.toByteArray := by
  simp [encode]

@[simp] theorem decode_encode (s : String) : decode (encode s) = .ok s := by
  have h : s.toByteArray.IsValidUTF8 := s.isValidUTF8
  simp [decode, toArray_encode, String.fromUTF8?, h, String.fromUTF8]

theorem encode_injective : Function.Injective encode := fun s t h => by
  have hs := decode_encode s
  rw [h, decode_encode] at hs
  exact (Except.ok.inj hs).symm

theorem decode_eq_ok_iff {bs : Bytes} {s : String} : decode bs = .ok s ↔ bs = encode s := by
  constructor
  · intro h
    simp only [decode, String.fromUTF8?] at h
    split at h
    · rename_i t ht
      split at ht
      · rename_i hv
        cases ht
        cases h
        simp [encode, String.fromUTF8]
      · cases ht
    · cases h
  · rintro rfl
    exact decode_encode s

theorem encode_append (s t : String) : encode (s ++ t) = encode s ++ encode t := by
  simp [encode]

end Abi.Utf8
