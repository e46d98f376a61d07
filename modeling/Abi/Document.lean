/-
  Types and addresses as nodes of a structured document, where both are texts.
-/
import Abi.Address
import Abi.Numeral.Scientific
import Abi.Ty.Parser

namespace Abi

/-- A node of a structured document, as far as it matters for finding out that it is no text. -/
inductive Document where
  | text (s : String)
  | integer (n : Int)
  /-- A number that is no integer or one that needs more than 64 bits. -/
  | float (negative : Bool) (magnitude : Binary64)
  | boolean (b : Bool)
  | null
  | sequence
  | map
deriving DecidableEq, Repr

namespace Document

/-- The node of a number as it is written, unless it is too large for one. -/
def ofNumber? (literal : String) : Option Document := do
  let s ← Scientific.read? literal.toList
  match s.toInt? with
  | some n => return .integer n
  | none => return .float s.negative (← s.toBinary64?)

/-- A node by its kind. -/
def describe : Document → String
  | .text s => "string " ++ Quoted.encode s
  | .integer n => s!"integer \x60{n}\x60"
  | .float negative magnitude =>
    let literal := Scientific.write negative magnitude
    s!"floating point \x60{literal}\x60"
  | .boolean b => s!"boolean \x60{b}\x60"
  | .null => "null"
  | .sequence => "sequence"
  | .map => "map"

/-- Why a node is not what was looked for. -/
inductive ReadError where
  | noText (found : Document)
  | type (cause : Error)
  | address (cause : AddressError)
deriving DecidableEq, Repr

/-- The sentence that reports a reading error. -/
def ReadError.message : ReadError → String
  | .noText found =>
    let kind := found.describe
    s!"invalid type: {kind}, expected a string"
  | .type cause => cause.message
  | .address cause => cause.message

/-- The text of a node. -/
def toText : Document → Except ReadError String
  | .text s => .ok s
  | d => .error (.noText d)

/-- The type that a node names. -/
def toTy (d : Document) : Except ReadError Ty := do
  (Ty.parse (← d.toText)).mapError .type

/-- The node that names a type. -/
def ofTy (t : Ty) : Document := .text t.name

/-- The address in a node. -/
def toAddress (d : Document) : Except ReadError Address := do
  (Address.ofText (← d.toText)).mapError .address

/-- The node of an address. -/
def ofAddress (a : Address) : Document := .text a.text

end Document

end Abi
