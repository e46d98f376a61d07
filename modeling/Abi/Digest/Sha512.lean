/-
  The hash function SHA-512/256: SHA-512 from a start of its own, cut to 32 bytes.
-/
import Abi.Numeral.BigEndian

namespace Abi.Sha512

/-- The constants of the 80 rounds. -/
def roundConstants : List UInt64 := [
  0x428a2f98d728ae22, 0x7137449123ef65cd, 0xb5c0fbcfec4d3b2f, 0xe9b5dba58189dbbc,
  0x3956c25bf348b538, 0x59f111f1b605d019, 0x923f82a4af194f9b, 0xab1c5ed5da6d8118,
  0xd807aa98a3030242, 0x12835b0145706fbe, 0x243185be4ee4b28c, 0x550c7dc3d5ffb4e2,
  0x72be5d74f27b896f, 0x80deb1fe3b1696b1, 0x9bdc06a725c71235, 0xc19bf174cf692694,
  0xe49b69c19ef14ad2, 0xefbe4786384f25e3, 0x0fc19dc68b8cd5b5, 0x240ca1cc77ac9c65,
  0x2de92c6f592b0275, 0x4a7484aa6ea6e483, 0x5cb0a9dcbd41fbd4, 0x76f988da831153b5,
  0x983e5152ee66dfab, 0xa831c66d2db43210, 0xb00327c898fb213f, 0xbf597fc7beef0ee4,
  0xc6e00bf33da88fc2, 0xd5a79147930aa725, 0x06ca6351e003826f, 0x142929670a0e6e70,
  0x27b70a8546d22ffc, 0x2e1b21385c26c926, 0x4d2c6dfc5ac42aed, 0x53380d139d95b3df,
  0x650a73548baf63de, 0x766a0abb3c77b2a8, 0x81c2c92e47edaee6, 0x92722c851482353b,
  0xa2bfe8a14cf10364, 0xa81a664bbc423001, 0xc24b8b70d0f89791, 0xc76c51a30654be30,
  0xd192e819d6ef5218, 0xd69906245565a910, 0xf40e35855771202a, 0x106aa07032bbd1b8,
  0x19a4c116b8d2d0c8, 0x1e376c085141ab53, 0x2748774cdf8eeb99, 0x34b0bcb5e19b48a8,
  0x391c0cb3c5c95a63, 0x4ed8aa4ae3418acb, 0x5b9cca4f7763e373, 0x682e6ff3d6b2b8a3,
  0x748f82ee5defb2fc, 0x78a5636f43172f60, 0x84c87814a1f0ab72, 0x8cc702081a6439ec,
  0x90befffa23631e28, 0xa4506cebde82bde9, 0xbef9a3f7b2c67915, 0xc67178f2e372532b,
  0xca273eceea26619c, 0xd186b8c721c0c207, 0xeada7dd6cde0eb1e, 0xf57d4f7fee6ed178,
  0x06f067aa72176fba, 0x0a637dc5a2c898a6, 0x113f9804bef90dae, 0x1b710b35131c471b,
  0x28db77f523047d84, 0x32caab7b40c72493, 0x3c9ebe0a15c9bebc, 0x431d67c49c100d4c,
  0x4cc5d4becb3e42b6, 0x597f299cfc657e2a, 0x5fcb6fab3ad6faec, 0x6c44198c4a475817]

/-- The eight words that are carried from block to block. -/
structure Chain where
  a : UInt64
  b : UInt64
  c : UInt64
  d : UInt64
  e : UInt64
  f : UInt64
  g : UInt64
  h : UInt64

/-- Where SHA-512/256 starts. -/
def start : Chain where
  a := 0x22312194fc2bf72c
  b := 0x9f555fa3c84c64c2
  c := 0x2393b86b6f53b151
  d := 0x963877195940eabd
  e := 0x96283ee2a88effe3
  f := 0xbe5e1e2553863992
  g := 0x2b0199fc2c85b8aa
  h := 0x0eb72ddc81c52ca2

/-- Rotation to the right. -/
def rotate (x n : UInt64) : UInt64 := (x >>> n) ||| (x <<< (64 - n))

/-- The word that follows sixteen words of the message schedule. -/
def nextWord (w : List UInt64) : UInt64 :=
  let x := w.getD 1 0
  let y := w.getD 14 0
  w.getD 0 0 + (rotate x 1 ^^^ rotate x 8 ^^^ (x >>> 7)) + w.getD 9 0 +
    (rotate y 19 ^^^ rotate y 61 ^^^ (y >>> 6))

/-- One round: mixes a constant and the first word of the schedule into the chain, and moves the
schedule on by a word. -/
def round (s : Chain × List UInt64) (k : UInt64) : Chain × List UInt64 :=
  let (v, w) := s
  let choice := (v.e &&& v.f) ^^^ (~~~v.e &&& v.g)
  let majority := (v.a &&& v.b) ^^^ (v.a &&& v.c) ^^^ (v.b &&& v.c)
  let t := v.h + (rotate v.e 14 ^^^ rotate v.e 18 ^^^ rotate v.e 41) + choice + k + w.getD 0 0
  let u := (rotate v.a 28 ^^^ rotate v.a 34 ^^^ rotate v.a 39) + majority
  (⟨t + u, v.a, v.b, v.c, v.d + t, v.e, v.f, v.g⟩, w.drop 1 ++ [nextWord w])

/-- Works sixteen words into the chain. -/
def compress (v : Chain) (block : List UInt64) : Chain :=
  let r := (roundConstants.foldl round (v, block)).1
  ⟨v.a + r.a, v.b + r.b, v.c + r.c, v.d + r.d, v.e + r.e, v.f + r.f, v.g + r.g, v.h + r.h⟩

/-- The first `count` pieces of `size` items each. -/
def pieces {α : Type} (size : Nat) : Nat → List α → List (List α)
  | 0, _ => []
  | count + 1, xs => xs.take size :: pieces size count (xs.drop size)

/-- The message with a set bit, zeros up to a whole block, and its length in bits behind it. -/
def pad (message : Bytes) : Bytes :=
  message ++ 0x80 :: List.replicate ((239 - message.length % 128) % 128) 0 ++
    BigEndian.encode 16 (8 * message.length)

/-- The words of the padded message, sixteen to a block. -/
def blocks (message : Bytes) : List (List UInt64) :=
  let padded := pad message
  (pieces 128 (padded.length / 128) padded).map fun block =>
    (pieces 8 16 block).map fun word => UInt64.ofNat (BigEndian.decode word)

/-- The digest of a message under SHA-512/256, 32 bytes. -/
def digest256 (message : Bytes) : Bytes :=
  let v := (blocks message).foldl compress start
  [v.a, v.b, v.c, v.d].flatMap fun word => BigEndian.encode 8 word.toNat

@[simp] theorem length_digest256 (message : Bytes) : (digest256 message).length = 32 := by
  simp [digest256]

end Abi.Sha512
