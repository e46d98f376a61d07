/-
  Digests of 32 bytes.
-/
import Abi.Digest.Sha512

namespace Abi

/-- A digest of 32 bytes. -/
structure Digest where
  bytes : Bytes
  length_bytes : bytes.length = 32
deriving DecidableEq

namespace Digest

/-- The digest of bytes. -/
def ofMessage (message : Bytes) : Digest :=
  ⟨Sha512.digest256 message, Sha512.length_digest256 message⟩

/-- The digest as a text. -/
def text (d : Digest) : String := d.bytes.marked

/-- The digest for a log. -/
def describe (d : Digest) : String :=
  let text := d.text
  s!"H256({text})"

end Digest

end Abi
