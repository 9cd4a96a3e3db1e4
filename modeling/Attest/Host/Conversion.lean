import Attest.Host.Type
import Attest.Value

set_option autoImplicit false

/-!
# Conversion of host values

`encode` turns a host value into a value of its descriptor; only an absent option or a number of
more than 256 bits stops it. `decode` goes back; tuple fields are looked up by name, in the order
in which the record declares them. Views and borrowed targets read as their owned forms do.
-/
namespace Attest

def bitLength (n : Nat) : Nat := if n = 0 then 0 else n.log2 + 1

namespace Scalar

def encodeNatural (n : Nat) : Result Value :=
  if n < 1 <<< 256 then .ok (.uint (BitVec.ofNat 256 n))
  else .error (.encoding [] (.tooWide (bitLength n)))

def encode : (s : Scalar) → s.Val → Result Value
  | .uint _, v => .ok (.uint (BitVec.ofNat 256 (BitVec.toNat v)))
  | .word, v => .ok (.uint v)
  | .natural, v => encodeNatural v
  | .bool, v => .ok (.bool v)
  | .string, v | .stringView, v => .ok (.string v)
  | .address, v => .ok (.address v)
  | .hash, v => .ok (.fixedBytes (Vector.toList v))
  | .uid, v => .ok (.fixedBytes (Uid.bytes v).toList)
  | .bytes, v => .ok (.bytes v)

def decodeUint (width : UintWidth) : Value → Result (BitVec width.bits)
  | .uint value =>
    if value.toNat < 1 <<< width.bits then .ok (BitVec.ofNat width.bits value.toNat)
    else .error (.injection [] (.overflow value width))
  | value => value.mismatch (.ofType (.uint width))

def decodeWord : Value → Result Word
  | .uint value => .ok value
  | value => value.mismatch (.ofType .uint256)

def decodeBytes32 : Value → Result (Vector UInt8 32)
  | .fixedBytes data =>
    match data.exactly? 32 with
    | some v => .ok v
    | none => .error (.injection [] (.byteCount 32 data.length))
  | value => value.mismatch (.ofType (.fixedBytes 32))

def decodeString : Value → Result String
  | .string text => .ok text
  | value => value.mismatch (.ofType .string)

def decode : (s : Scalar) → Value → Result s.Val
  | .uint width, value => decodeUint width value
  | .word, value => decodeWord value
  | .natural, value => (decodeWord value).map BitVec.toNat
  | .bool, value =>
    match value with
    | .bool b => .ok b
    | value => value.mismatch (.ofType .bool)
  | .string, value | .stringView, value => decodeString value
  | .address, value =>
    match value with
    | .address a => .ok a
    | value => value.mismatch (.ofType .address)
  | .hash, value => decodeBytes32 value
  | .uid, value => (decodeBytes32 value).map Uid.mk
  | .bytes, value =>
    match value with
    | .bytes data => .ok data
    | value => value.mismatch (.ofType .bytes)

end Scalar

/-- Converts elements in order; the first of them stands at `position`. -/
def convertElements {α β : Type} (convert : α → Result β) (position : Nat) :
    List α → Result (List β)
  | [] => .ok []
  | item :: items => do
    let converted ← Result.within (.index position) (convert item)
    let rest ← convertElements convert (position + 1) items
    return converted :: rest

namespace HostType

/-- The bytes that a sequence of elements is, when the element type is the byte type. -/
def toBytes? : (element : HostType) → List element.Val → Option Bytes
  | .scalar (.uint .w8), items => some (items.map UInt8.ofBitVec)
  | _, _ => none

def ofBytes? : (element : HostType) → Option (Bytes → List element.Val)
  | .scalar (.uint .w8) => some fun data => data.map UInt8.toBitVec
  | _ => none

def encodeSequence (element : HostType) (encode : element.Val → Result Value)
    (size : Option Nat) (items : List element.Val) : Result Value :=
  match size, element.toBytes? items with
  | none, some data => .ok (.bytes data)
  | some 32, some data => .ok (.fixedBytes data)
  | none, none => (convertElements encode 0 items).map .array
  | some _, _ => (convertElements encode 0 items).map .fixedArray

mutual

def encode : (t : HostType) → t.Val → Result Value
  | .scalar s, v => s.encode v
  | .pointer _ target, v => target.encode v
  | .optional target, v =>
    match v with
    | some v => target.encode v
    | none => .error (.encoding [] .absent)
  | .sequence extent element, v =>
    encodeSequence element element.encode extent.size? (extent.toList v)
  | .record _ fields, v => (encodeFields fields v).map .tuple

def encodeFields : (fields : List (Named HostType)) → Vals fields → Result (List (Named Value))
  | [], _ => .ok []
  | ⟨name, type⟩ :: fields, (v, vs) => do
    let value ← Result.within (.field name) (type.encode v)
    let rest ← encodeFields fields vs
    return ⟨name, value⟩ :: rest

end

/-- The elements of a sequence whose element type is not the byte type, or whose form has no
    special meaning for bytes. -/
def decodeElements (element : HostType) (decode : Value → Result element.Val) :
    Option Nat → Value → Result (List element.Val)
  | some size, .fixedArray items =>
    if items.length = size then convertElements decode 0 items
    else .error (.injection [] (.elementCount size items.length))
  | none, .array items => convertElements decode 0 items
  | some size, value => value.mismatch (.fixedArray size)
  | none, value => value.mismatch .array

def decodeSequence (element : HostType) (decode : Value → Result element.Val)
    (size : Option Nat) (value : Value) : Result (List element.Val) :=
  match size, element.ofBytes? with
  | none, some read =>
    match value with
    | .bytes data => .ok (read data)
    | value => value.mismatch (.ofType .bytes)
  | some 32, some read => (Scalar.decodeBytes32 value).map fun data => read data.toList
  | size, _ => decodeElements element decode size value

end HostType

/-- Takes the first field of a name and converts it. A field that does not convert is taken all the
    same; only a missing one changes nothing. -/
def TupleFields.takeWith {α : Type} (tuple : TupleFields) (convert : Value → Result α)
    (name : String) : Result α × TupleFields :=
  match tuple.extract? name with
  | none => (.error (.injection [.field name] .missingField), tuple)
  | some (value, left) => (Result.within (.field name) (convert value), left)

namespace HostType

mutual

def decode : (t : HostType) → Value → Result t.Val
  | .scalar s, value => s.decode value
  | .pointer _ target, value => target.decode value
  | .optional target, value => (target.decode value).map some
  | .sequence extent element, value => do
    let items ← decodeSequence element element.decode extent.size? value
    match extent.ofList? items with
    | some whole => .ok whole
    | none => .error (.injection [] (.elementCount (extent.size?.getD 0) items.length))
  | .record _ fields, value => do
    let tuple ← value.openTuple
    decodeFields fields tuple

def decodeFields : (fields : List (Named HostType)) → TupleFields → Result (Vals fields)
  | [], _ => .ok ()
  | ⟨name, type⟩ :: fields, tuple => do
    let (taken, left) := tuple.takeWith type.decode name
    let v ← taken
    let vs ← decodeFields fields left
    return (v, vs)

end

end HostType

def TupleFields.take (tuple : TupleFields) (type : HostType) (name : String) :
    Result type.Val × TupleFields :=
  tuple.takeWith type.decode name

/-- A record takes its fields out of the tuple one after another. -/
theorem HostType.decodeFields_cons (field : Named HostType) (fields : List (Named HostType))
    (tuple : TupleFields) :
    decodeFields (field :: fields) tuple = (do
      let v ← (tuple.take field.item field.name).1
      let vs ← decodeFields fields (tuple.take field.item field.name).2
      return (v, vs)) := rfl

theorem TupleFields.take_of_extract? {tuple left : TupleFields} {name : String} {value : Value}
    (h : tuple.extract? name = some (value, left)) (type : HostType) :
    tuple.take type name = (Result.within (.field name) (type.decode value), left) := by
  rw [take, takeWith, h]

theorem TupleFields.take_of_missing {tuple : TupleFields} {name : String}
    (h : tuple.extract? name = none) (type : HostType) :
    tuple.take type name = (.error (.injection [.field name] .missingField), tuple) := by
  rw [take, takeWith, h]

end Attest
