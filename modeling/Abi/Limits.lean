/-
  The numbers that the format fixes.
-/

namespace Abi

/-- Powers of natural numbers are the ones of the language in every module, whatever others it
imports. -/
instance (priority := 2000) powNat : Pow Nat Nat := instPowNat

end Abi

namespace Abi.Limits

/-- The most bytes that a single value may take. -/
def valueBytes : Nat := 4096

/-- The most elements of an array, and the largest offset: what two bytes can hold. -/
def word : Nat := 65535

/-- The bytes of a length or of an offset. -/
def wordBytes : Nat := 2

/-- The byte of true. -/
def trueByte : UInt8 := 0x80

/-- The byte of false. -/
def falseByte : UInt8 := 0x00

/-- The booleans that share one byte. -/
def boolsPerByte : Nat := 8

/-- The widest integer, in bits. -/
def width : Nat := 512

/-- The most decimal places of a fixed-point type. -/
def precision : Nat := 160

/-- The bytes of an account address. -/
def addressBytes : Nat := 32

/-- The bytes of the checksum behind an address. -/
def checksumBytes : Nat := 4

/-- The characters of an address in text. -/
def addressChars : Nat := 58

/-- The bytes of a method selector. -/
def selectorBytes : Nat := 4

/-- The largest size that is told apart; anything larger counts as this. -/
def size : Nat := 2 ^ (64 : Nat) - 1

end Abi.Limits
