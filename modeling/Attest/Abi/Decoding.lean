import Attest.Abi.Datum

set_option autoImplicit false

/-!
# Decoding of data

`Shape.read` reads a datum whose head begins at a position of the payload and returns the position
of the next head. Content beyond what the shapes ask for is not looked at: padding, the upper bytes
of an address, trailing bytes. Only positions and lengths must be plain words below `2 ^ 32`.
-/
namespace Attest.Abi

inductive Fault where
  | invalidData
  | emptyData
  deriving DecidableEq, Repr

def Fault.message : Fault → String
  | .invalidData => "Invalid data"
  | .emptyData =>
    "Invalid name: please ensure the contract and method you're calling exist! failed to decode " ++
    "empty bytes. if you're using jsonrpc this is likely due to jsonrpc returning `0x` in case " ++
    "contract or method don't exist"

def readSize? (data : Bytes) (pos : Nat) : Option Nat := do
  let word ← data.slice? pos 32
  if (word.take 28).all (· == 0) then some (ofBigEndian (word.drop 28)) else none

/-- Content with its length word at the position that the word at `pos` holds. -/
def readSized? (data : Bytes) (pos : Nat) : Option Bytes := do
  let start ← readSize? data pos
  let size ← readSize? data start
  data.slice? (start + 32) size

/-- The payload from the position on that the word at `pos` holds. -/
def readTail? (data : Bytes) (pos : Nat) : Option Bytes := do
  let start ← readSize? data pos
  if start ≤ data.length then some (data.drop start) else none

def readRepeated (read : Nat → Option (Datum × Nat)) : Nat → Nat → Option (List Datum × Nat)
  | 0, pos => some ([], pos)
  | count + 1, pos => do
    let (datum, next) ← read pos
    let (data, stop) ← readRepeated read count next
    return (datum :: data, stop)

namespace Shape

mutual

def read : Shape → Bytes → Nat → Option (Datum × Nat)
  | .address, data, pos => do
    let word ← data.slice? pos 32
    let a ← Address.ofBytes? (word.drop 12)
    return (.address a, pos + 32)
  | .bool, data, pos => do
    let word ← data.slice? pos 32
    if (word.take 31).all (· == 0) then some (.bool (word.drop 31 == [1]), pos + 32) else none
  | .uint _, data, pos => do
    let word ← data.slice? pos 32
    return (.uint (BitVec.ofNat 256 (ofBigEndian word)), pos + 32)
  | .fixedBytes size, data, pos => do
    let content ← data.slice? pos size
    return (.fixedBytes content, pos + 32)
  | .bytes, data, pos => do
    let content ← readSized? data pos
    return (.bytes content, pos + 32)
  | .string, data, pos => do
    let content ← readSized? data pos
    return (.string (String.ofList (Text.lossy content)), pos + 32)
  | .array element, data, pos => do
    let start ← readSize? data pos
    let count ← readSize? data start
    let (elements, _) ← readRepeated (element.read (data.drop (start + 32))) count 0
    return (.array elements, pos + 32)
  | .fixedArray size element, data, pos =>
    if element.isDynamic then do
      let tail ← readTail? data pos
      let (elements, _) ← readRepeated (element.read tail) size 0
      return (.fixedArray elements, pos + 32)
    else do
      let (elements, next) ← readRepeated (element.read data) size pos
      return (.fixedArray elements, next)
  | .tuple shapes, data, pos =>
    if anyDynamic shapes then do
      let tail ← readTail? data pos
      let (members, _) ← readAll shapes tail 0
      return (.tuple members, pos + 32)
    else do
      let (members, next) ← readAll shapes data pos
      return (.tuple members, next)

def readAll : List Shape → Bytes → Nat → Option (List Datum × Nat)
  | [], _, pos => some ([], pos)
  | shape :: shapes, data, pos => do
    let (datum, next) ← shape.read data pos
    let (rest, stop) ← readAll shapes data next
    return (datum :: rest, stop)

end

/-- Whether a payload without bytes can hold the shape at the top level. -/
def acceptsEmpty : Shape → Bool
  | .fixedBytes size | .fixedArray size _ => size == 0
  | _ => false

end Shape

def decode (shapes : List Shape) (data : Bytes) : Except Fault (List Datum) :=
  if data.isEmpty && !shapes.all Shape.acceptsEmpty then .error .emptyData
  else match Shape.readAll shapes data 0 with
    | some (values, _) => .ok values
    | none => .error .invalidData

end Attest.Abi
