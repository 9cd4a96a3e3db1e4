import Attest.Text.Hex

set_option autoImplicit false

namespace Attest

structure Uid where
  bytes : Vector UInt8 32
  deriving DecidableEq, Repr

namespace Uid

def zero : Uid := ⟨Vector.replicate 32 0⟩

def isZero (u : Uid) : Bool := u = zero

def number (u : Uid) : Nat := ofBigEndian u.bytes.toList

/-- Identifiers are ordered as numbers, which is the order of their bytes from the left. -/
instance : Ord Uid := ⟨fun a b => compare a.number b.number⟩

instance : LE Uid := ⟨fun a b => a.number ≤ b.number⟩

instance (a b : Uid) : Decidable (a ≤ b) := inferInstanceAs (Decidable (a.number ≤ b.number))

def sort (uids : List Uid) : List Uid := uids.mergeSort fun a b => a ≤ b

def toBytesList (uids : List Uid) : List (Vector UInt8 32) := uids.map bytes

def text (u : Uid) : String := String.ofList (Text.hexMarked u.bytes.toList)

def debugText (u : Uid) : String := "Uid(" ++ u.text ++ ")"

def ofText (text : String) : Except Text.HexFault Uid := do
  let bytes ← Text.readHexExactly 32 (Text.dropMarker text.toList)
  return ⟨bytes⟩

/-- The last 32 bytes, with zeros on the left of fewer. -/
def ofLastBytes (data : Bytes) : Uid := ⟨data.takeLast 32⟩

def ofPadded (text : String) : Except Text.HexFault Uid := do
  let digits := Text.dropMarker text.toList
  let even := if (Text.utf8 digits).length % 2 = 1 then '0' :: digits else digits
  let data ← Text.readHex even
  return ofLastBytes data

end Uid

end Attest
