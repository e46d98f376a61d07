import Abi.Document
import Abi.Method
import Abi.Host.Decode
import Abi.Host.Encode
import Abi.Object
import Abi.Proofs.Layout.RoundTrip
import Abi.Proofs.Outcome
import Abi.Proofs.Sequence.RoundTrip
import Abi.Proofs.Ty.Components
import Abi.Proofs.Ty.Names
import Abi.Proofs.Ty.Parse
import Abi.Proofs.Numeral.FixedPoint
import Abi.Proofs.Ty.Size
import Abi.Proofs.Ty.Exact
import Abi.Proofs.Host.Encode
import Abi.Proofs.Host.RoundTrip
import Abi.Proofs.Sequence.Items
import Abi.Proofs.DynamicArray.Items
import Abi.Proofs.DynamicArray.Calls
import Abi.Proofs.Layout.Places
import Abi.Proofs.Sequence.Layout
import Abi.Proofs.Layout.Reading
import Abi.Proofs.Host.Decode
import Abi.Proofs.Host.PrefixFree
import Abi.Proofs.Layout.Tight
import Abi.Proofs.Host.Canonical
import Abi.Proofs.Layout.Cuts
import Abi.Proofs.Sequence.Cuts
import Abi.Proofs.Sequence.Gaps
import Abi.Proofs.Sequence.HeadLength
import Abi.Proofs.Host.Accepts
import Abi.Proofs.Host.Size
import Abi.Proofs.Host.Static
import Abi.Proofs.Host.Same
import Abi.Proofs.Sequence.Changes
import Abi.Proofs.StaticArray.Items
import Abi.Proofs.Struct.Values
import Abi.Proofs.Container.Kinds
import Abi.Proofs.Container.Lens
import Abi.Proofs.Struct.Calls
import Abi.Proofs.Container.Holders
import Abi.Proofs.Container.Nested
import Abi.Proofs.ByteString.Calls
import Abi.Proofs.Typed.Codec
import Abi.Proofs.Method.Signatures
import Abi.Proofs.Text.Base32
import Abi.Proofs.Address.Texts
import Abi.Proofs.Container.Slices
import Abi.Proofs.Numeral.Literals
import Abi.Proofs.Host.Integers
import Abi.Proofs.Typed.Concat
import Abi.Proofs.UInt.Comparison
import Abi.Proofs.Ty.Commas
