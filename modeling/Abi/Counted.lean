/-
  Texts and byte strings behind their length.
-/
import Abi.Layout.Word

namespace Abi.Counted

/-- Raw bytes behind their number. -/
def writeBytes (bs : Bytes) : Except Error Bytes := Word.counted bs.length bs

/-- The raw bytes, if their number is the one in front. -/
def readBytes (encoded : Bytes) : Except Error Bytes := do
  let (count, body) ← Word.splitCounted encoded
  if body.length = count then return body
  else throw (.malformed (.byteStringLength count body.length))

/-- A text in UTF-8 behind its number of bytes. -/
def writeText (s : String) : Except Error Bytes :=
  Word.counted (Utf8.encode s).length (Utf8.encode s)

/-- The text, if its number of bytes is the one in front. -/
def readText (encoded : Bytes) : Except Error String := do
  let (count, body) ← Word.splitCounted encoded
  if body.length = count then (Utf8.decode body).mapError fun fault => .malformed (.utf8 fault)
  else throw (.malformed (.textLength count body.length))

/-- Bytes are read exactly from what they are written as. -/
theorem readBytes_eq_ok_iff {encoded bs : Bytes} :
    readBytes encoded = .ok bs ↔ writeBytes bs = .ok encoded := by
  simp only [readBytes, writeBytes, ← Word.splitCounted_eq_ok_iff]
  rcases hs : Word.splitCounted encoded with e | ⟨count, body⟩
  · simp [bind, Except.bind]
  · simp only [bind, Except.bind, pure, Except.pure, throw, throwThe, MonadExceptOf.throw]
    split
    · rename_i h
      simp only [Except.ok.injEq, Prod.mk.injEq]
      constructor
      · rintro rfl; exact ⟨h.symm, rfl⟩
      · exact fun h' => h'.2
    · rename_i h
      simp only [reduceCtorEq, Except.ok.injEq, Prod.mk.injEq, false_iff, not_and]
      rintro rfl rfl
      exact h rfl

/-- A text is read exactly from what it is written as. -/
theorem readText_eq_ok_iff {encoded : Bytes} {s : String} :
    readText encoded = .ok s ↔ writeText s = .ok encoded := by
  simp only [readText, writeText, ← Word.splitCounted_eq_ok_iff]
  rcases hs : Word.splitCounted encoded with e | ⟨count, body⟩
  · simp [bind, Except.bind]
  · simp only [bind, Except.bind, throw, throwThe, MonadExceptOf.throw]
    split
    · rename_i h
      have hd := @Utf8.decode_eq_ok_iff body s
      simp only [Except.ok.injEq, Prod.mk.injEq]
      constructor
      · intro hm
        have : Utf8.decode body = .ok s := by
          rcases hu : Utf8.decode body with f | t
          · rw [hu] at hm; cases hm
          · rw [hu] at hm; cases hm; rfl
        have e := hd.1 this
        exact ⟨by rw [← h, e], e⟩
      · rintro ⟨_, e⟩
        rw [hd.2 e]
        rfl
    · rename_i h
      simp only [reduceCtorEq, Except.ok.injEq, Prod.mk.injEq, false_iff, not_and]
      rintro rfl rfl
      exact h rfl

end Abi.Counted
