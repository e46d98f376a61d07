/-
  Account addresses: 32 bytes, written as 58 characters that end in a checksum.

  How an address is written and read is said for any digest, of which nothing but the length
  matters; the addresses of accounts are those with the digest `Digest.ofMessage`.
-/
import Abi.Digest.Basic
import Abi.Error
import Abi.Text.Base32

namespace Abi

/-- An account address. -/
@[ext]
structure Address where
  bytes : Bytes
  length_bytes : bytes.length = Limits.addressBytes
deriving DecidableEq

namespace Address

/-- The address of 32 bytes. -/
def ofBytes (bs : Bytes) : Except AddressError Address :=
  if h : bs.length = Limits.addressBytes then .ok ⟨bs, h⟩ else .error (.length bs.length)

/-- Every byte is zero. -/
def isZero (a : Address) : Bool := a.bytes.all (· = 0)

section

variable (digest : Bytes → Digest)

/-- The end of the digest of the address. -/
def checksumBy (a : Address) : Bytes :=
  (digest a.bytes).bytes.drop (Limits.addressBytes - Limits.checksumBytes)

/-- The address and its checksum in base 32. -/
def textBy (a : Address) : String := String.ofList (Base32.encode (a.bytes ++ a.checksumBy digest))

/-- Reads an address with its checksum. The length is that of the text in bytes. -/
def ofTextBy (s : String) : Except AddressError Address :=
  if s.utf8ByteSize ≠ Limits.addressChars then .error (.textLength s.utf8ByteSize)
  else
    match Base32.decode? s.toList with
    | none => .error (.alphabet s)
    | some bs => do
      let a ← ofBytes (bs.take Limits.addressBytes)
      if bs.drop Limits.addressBytes = a.checksumBy digest then return a else throw (.checksum s)

end

/-- The checksum of an account address. -/
def checksum (a : Address) : Bytes := a.checksumBy Digest.ofMessage

/-- The text of an account address. -/
def text (a : Address) : String := a.textBy Digest.ofMessage

/-- Reads an account address. -/
def ofText (s : String) : Except AddressError Address := ofTextBy Digest.ofMessage s

/-- The bytes of the address in hexadecimal. -/
def hex (a : Address) : String := a.bytes.marked

/-- The address for a log. -/
def describe (a : Address) : String :=
  let text := a.text
  s!"Address({text})"

theorem ofBytes_bytes (a : Address) : ofBytes a.bytes = .ok a := by
  simp [ofBytes, a.length_bytes]

theorem ofBytes_eq_ok_iff {bs : Bytes} {a : Address} : ofBytes bs = .ok a ↔ a.bytes = bs := by
  constructor
  · intro h
    simp only [ofBytes] at h
    split at h
    · cases h; rfl
    · cases h
  · rintro rfl
    exact ofBytes_bytes a

@[simp] theorem length_checksumBy (digest : Bytes → Digest) (a : Address) :
    (a.checksumBy digest).length = Limits.checksumBytes := by
  simp [checksumBy, (digest a.bytes).length_bytes, Limits.addressBytes, Limits.checksumBytes]

end Address

end Abi
