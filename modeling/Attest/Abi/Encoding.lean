import Attest.Abi.Datum

set_option autoImplicit false

/-!
# Encoding of data

Members of a tuple or an array are laid out as parts: first the heads of all members, then their
tails. A part in the tail leaves in the head a word that tells where its body begins, counted from
the first head. Whether a member goes to the tail is decided by the data that it holds.
-/
namespace Attest.Abi

structure Part where
  inTail : Bool
  body : Bytes
  deriving DecidableEq, Repr

def Part.headSize (part : Part) : Nat := if part.inTail then 32 else part.body.length

def Part.tail (part : Part) : Bytes := if part.inTail then part.body else []

/-- A length or a position as a word; it wraps at `2 ^ 32`. -/
def sizeWord (n : Nat) : Bytes := Bytes.zeros 28 ++ bigEndian 4 n

/-- The heads, when the tail of the first part begins at `next`. -/
def heads (next : Nat) : List Part → Bytes
  | [] => []
  | part :: parts =>
    if part.inTail then sizeWord next ++ heads (next + part.body.length) parts
    else part.body ++ heads next parts

def headsSize : List Part → Nat
  | [] => 0
  | part :: parts => part.headSize + headsSize parts

def frame (parts : List Part) : Bytes :=
  heads (headsSize parts) parts ++ parts.flatMap Part.tail

def sized (data : Bytes) : Bytes := sizeWord data.length ++ data.padRight

namespace Datum

mutual

def isDynamic : Datum → Bool
  | .string _ | .bytes _ | .array _ => true
  | .tuple members => anyDynamic members
  | .fixedArray elements => anyDynamic elements
  | _ => false

def anyDynamic : List Datum → Bool
  | [] => false
  | datum :: data => datum.isDynamic || anyDynamic data

end

mutual

def body : Datum → Bytes
  | .address a => Bytes.zeros 12 ++ a.bytes.toList
  | .bool value => Bytes.zeros 31 ++ [if value then 1 else 0]
  | .string text => sized (Text.utf8 text.toList)
  | .fixedBytes data => data.padRight
  | .bytes data => sized data
  | .uint value => bigEndian 32 value.toNat
  | .tuple members => frame (parts members)
  | .fixedArray elements => frame (parts elements)
  | .array elements => sizeWord elements.length ++ frame (parts elements)

def parts : List Datum → List Part
  | [] => []
  | datum :: data => ⟨datum.isDynamic, datum.body⟩ :: parts data

end

theorem parts_eq (data : List Datum) : parts data = data.map fun d => ⟨d.isDynamic, d.body⟩ := by
  induction data with
  | nil => rfl
  | cons d data ih => simp [parts, ih]

theorem anyDynamic_eq (data : List Datum) : anyDynamic data = data.any isDynamic := by
  induction data with
  | nil => rfl
  | cons d data ih => simp [anyDynamic, ih]

end Datum

/-- Encodes a list as the members of one tuple. -/
def encode (data : List Datum) : Bytes := frame (Datum.parts data)

end Attest.Abi
