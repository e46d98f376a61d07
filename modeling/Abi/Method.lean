/-
  Method signatures, and the selectors that stand for them in a call.
-/
import Abi.Digest.Basic
import Abi.Error
import Abi.Ty.Name

namespace Abi.Method

/-- The name of a method, its argument types between parentheses and its return type; a method
that returns nothing has `void` there. -/
def signature (name : String) (arguments : List Ty) (returns : Option Ty) : String :=
  let between := ",".intercalate (arguments.map Ty.name)
  let behind := (returns.map Ty.name).getD "void"
  s!"{name}({between}){behind}"

/-- The first bytes of a signature's digest. -/
def selector (signature : String) : Bytes :=
  (Digest.ofMessage (Utf8.encode signature)).bytes.take Limits.selectorBytes

theorem length_selector (signature : String) :
    (selector signature).length = Limits.selectorBytes := by
  simp [selector, (Digest.ofMessage _).length_bytes, Limits.selectorBytes]

end Abi.Method
