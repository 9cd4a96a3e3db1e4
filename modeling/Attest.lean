import Attest.Main
import Attest.Session
import Attest.Proofs.Abi.Frame
import Attest.Proofs.Text.Utf8
import Attest.Proofs.Schema.Canonical
import Attest.Proofs.Abi.Layout
import Attest.Proofs.Abi.RoundTrip
import Attest.Proofs.Abi.Reading
import Attest.Proofs.Abi.Proper
import Attest.Proofs.Result
import Attest.Proofs.Typing
import Attest.Proofs.Codec
import Attest.Proofs.Fields
import Attest.Proofs.Host.Conversion
import Attest.Proofs.Host.Descriptor
import Attest.Proofs.Slots
import Attest.Proofs.Published
import Attest.Proofs.Session
import Attest.Proofs.Text.Hex
import Attest.Proofs.Standard
import Attest.Proofs.Json.Reading
import Attest.Proofs.Fingerprint
import Attest.Proofs.Host.Interoperation
import Attest.Proofs.Abi.Weight
import Attest.Proofs.Arrays
import Attest.Proofs.Nodes
import Attest.Proofs.Host.Overflow
import Attest.Proofs.Schema.TypeText
import Attest.Proofs.Schema.Enclosing
import Attest.Proofs.Schema.Pieces
import Attest.Proofs.Schema.Declaring
import Attest.Proofs.Naming
import Attest.Proofs.Extension
import Attest.Proofs.Text.Spacing
import Attest.Proofs.Schema.Spacing
import Attest.Proofs.Schema.Spelling
import Attest.Proofs.Faults
import Attest.Proofs.Extraction
import Attest.Proofs.Host.Reordering
import Attest.Proofs.Misfit
import Attest.Proofs.Packing
import Attest.Proofs.Host.Wrapping
import Attest.Proofs.Uid
import Attest.Proofs.Commitment
import Attest.Proofs.Registry
