/-
  What can go wrong, by cause, and the sentence that reports it.
-/
import Abi.Limits
import Abi.Text.Quoted
import Abi.Text.Utf8

namespace Abi

/-! ## Causes -/

/-- Why bytes or a text are no account address. -/
inductive AddressError where
  | length (got : Nat)
  | textLength (got : Nat)
  | alphabet (text : String)
  | checksum (text : String)
deriving DecidableEq, Repr

/-- Why bytes do not read back as a value of their type. -/
inductive Malformed where
  | truncated
  | leftover
  | offset (start low high : Nat)
  | element (type : String) (got expected : Nat)
  | uintLength (width expected got : Nat)
  | boolLength (got : Nat)
  | addressLength (got : Nat)
  | textLength (declared got : Nat)
  | byteStringLength (declared got : Nat)
  | utf8 (fault : Utf8.Fault)
deriving DecidableEq, Repr

/-- Which size the format cannot hold. -/
inductive Oversize where
  | word (value : Nat)
  | array (item : String) (size : Nat)
  | value (type : String) (bytes : Nat)
deriving DecidableEq, Repr

/-- Why host data is no value at all. -/
inductive BadValue where
  | negativeDecimal (literal : String)
  | decimal (literal : String)
  | fractionDigits (literal : String) (precision : Nat)
  | twoByteSources
deriving DecidableEq, Repr

/-- Why a text or parameters are no type. -/
inductive BadType where
  | unopened (text : String)
  | arraySize (text : String)
  | parentheses (body : String)
  | noPrecision (text : String)
  | ufixedWidth (text : String)
  | ufixedPrecision (text : String)
  | uintWidth (text : String)
  | unknown (text : String)
  | width (got : Nat)
  | precision (got : Nat)
  | duplicateField (field struct : String)
deriving DecidableEq, Repr

/-- Every way in which an operation of the library fails. -/
inductive Error where
  | range (type value : String)
  | mismatch (expected got : String)
  | malformed (cause : Malformed)
  | oversize (cause : Oversize)
  | badValue (cause : BadValue)
  | badType (cause : BadType)
  | index (index : Int) (length : Nat)
  | emptyArray
  | immutable (struct field : String)
  | unknownField (struct field : String)
  | address (cause : AddressError)
deriving DecidableEq, Repr

/-! ## Sentences -/

/-- The sentence that reports an address error. -/
def AddressError.message : AddressError → String
  | .length got =>
    let size := Limits.addressBytes
    s!"invalid address length: expected {size} bytes, got {got}"
  | .textLength got =>
    let size := Limits.addressChars
    s!"invalid address string length: expected {size} characters, got {got}"
  | .alphabet text => s!"invalid base32 encoding: {text}"
  | .checksum text => s!"invalid address checksum: {text}"

/-- What a report on malformed bytes says after its opening words. -/
def Malformed.message : Malformed → String
  | .truncated => "input string is not long enough to be decoded"
  | .leftover => "input string was not fully consumed"
  | .offset start low high => s!"dynamic offset {start} outside tail region {low}..{high}"
  | .element type got expected => s!"{type} element has {got} bytes, expected {expected}"
  | .uintLength width expected got => s!"expected {expected} bytes for uint{width}, got {got}"
  | .boolLength got => s!"expected 1 byte for bool, got {got}"
  | .addressLength got =>
    let size := Limits.addressBytes
    s!"expected {size} bytes for address, got {got}"
  | .textLength declared got =>
    s!"string length prefix {declared} does not match {got} bytes of content"
  | .byteStringLength declared got =>
    s!"byte[] length prefix {declared} does not match {got} bytes of content"
  | .utf8 fault => "invalid UTF-8: " ++ fault.message

/-- What a report on a size says after its opening words. -/
def Oversize.message : Oversize → String
  | .word n => s!"{n} does not fit in 16 bits"
  | .array item size =>
    let most := Limits.valueBytes
    s!"{item}[{size}] cannot fit in {most} bytes"
  | .value type bytes =>
    let most := Limits.valueBytes
    s!"{type} value encodes to {bytes} bytes, maximum is {most}"

/-- What a report on host data says after its opening words. -/
def BadValue.message : BadValue → String
  | .negativeDecimal literal =>
    s!"negative value not allowed for unsigned fixed-point: {literal}"
  | .decimal literal => "invalid decimal literal: " ++ Quoted.encode literal
  | .fractionDigits literal precision =>
    s!"{literal} has more than {precision} fractional digits"
  | .twoByteSources => "cannot combine a raw buffer with individual byte values"

/-- What a report on a type says after its opening words. -/
def BadType.message : BadType → String
  | .unopened text => text
  | .arraySize text => s!"invalid array size in {text}"
  | .parentheses body => s!"unbalanced parentheses: ({body})"
  | .noPrecision text => text
  | .ufixedWidth text => s!"invalid ufixed size: {text}"
  | .ufixedPrecision text => s!"invalid ufixed precision: {text}"
  | .uintWidth text => s!"invalid uint size: {text}"
  | .unknown text => s!"unknown type: {text}"
  | .width got =>
    let most := Limits.width
    s!"bit size must be a multiple of 8 between 8 and {most}, got {got}"
  | .precision got =>
    let most := Limits.precision
    s!"ufixed precision must be between 1 and {most}, got {got}"
  | .duplicateField field struct => s!"duplicate field {field} in struct {struct}"

/-- The sentence that reports an error. -/
def Error.message : Error → String
  | .range type value => s!"{value} is out of range for {type}"
  | .mismatch expected got => s!"type mismatch: expected {expected}, got {got}"
  | .malformed cause => "malformed encoding: " ++ cause.message
  | .oversize cause => "size limit exceeded: " ++ cause.message
  | .badValue cause => "invalid value: " ++ cause.message
  | .badType cause => "invalid type: " ++ cause.message
  | .index i length => s!"index {i} out of bounds for length {length}"
  | .emptyArray => "pop from empty array"
  | .immutable struct field => s!"{struct}.{field} is immutable"
  | .unknownField struct field => s!"unknown field: {struct}.{field}"
  | .address cause => "address error: " ++ cause.message

end Abi
