import Attest.Failure

set_option autoImplicit false

/-!
# Values

A value keeps the names of its tuple fields, so that records can be filled by name. `datum` forgets
the names and `ofDatum` takes them from a type again. `check` says whether a value can be encoded
as a type; it does not look at the value's own names.
-/
namespace Attest

inductive Value where
  | address (address : Address)
  | bool (value : Bool)
  | string (text : String)
  | fixedBytes (data : Bytes)
  | bytes (data : Bytes)
  | uint (value : Word)
  | tuple (fields : List (Named Value))
  | fixedArray (elements : List Value)
  | array (elements : List Value)
  deriving BEq, Repr

namespace Descriptor

mutual

def shape : Descriptor → Abi.Shape
  | .address => .address
  | .bool => .bool
  | .string => .string
  | .fixedBytes size => .fixedBytes size
  | .bytes => .bytes
  | .uint width => .uint width.bits
  | .uint256 => .uint 256
  | .tuple fields => .tuple (shapes fields)
  | .fixedArray size element => .fixedArray size element.shape
  | .array element => .array element.shape

def shapes : List Declaration → List Abi.Shape
  | [] => []
  | ⟨_, type⟩ :: fields => type.shape :: shapes fields

end

end Descriptor

namespace Value

def kind : Value → Kind
  | .address _ => .address
  | .bool _ => .bool
  | .string _ => .string
  | .fixedBytes data => .fixedBytes data.length
  | .bytes _ => .bytes
  | .uint _ => .uint
  | .tuple fields => .tuple fields.length
  | .fixedArray elements => .fixedArray elements.length
  | .array _ => .array

def mismatch {α : Type} (expected : Expected) (found : Value) : Result α :=
  .error (.injection [] (.kind expected found.kind))

mutual

def datum : Value → Abi.Datum
  | .address a => .address a
  | .bool value => .bool value
  | .string text => .string text
  | .fixedBytes data => .fixedBytes data
  | .bytes data => .bytes data
  | .uint value => .uint value
  | .tuple fields => .tuple (fieldData fields)
  | .fixedArray elements => .fixedArray (elementData elements)
  | .array elements => .array (elementData elements)

def fieldData : List (Named Value) → List Abi.Datum
  | [] => []
  | ⟨_, value⟩ :: fields => value.datum :: fieldData fields

def elementData : List Value → List Abi.Datum
  | [] => []
  | value :: values => value.datum :: elementData values

end

mutual

/-- The value that a datum is under a type, whose names the tuples take. -/
def ofDatum : Descriptor → Abi.Datum → Result Value
  | .address, .address a => .ok (.address a)
  | .bool, .bool value => .ok (.bool value)
  | .string, .string text => .ok (.string text)
  | .fixedBytes size, .fixedBytes data =>
    if data.length = size then .ok (.fixedBytes data)
    else .error (.decoding (.mismatch (.fixedBytes data) (.fixedBytes size)))
  | .bytes, .bytes data => .ok (.bytes data)
  | .uint _, .uint value => .ok (.uint value)
  | .uint256, .uint value => .ok (.uint value)
  | .tuple fields, .tuple members =>
    if members.length = fields.length then (ofMembers fields members).map .tuple
    else .error (.decoding (.mismatch (.tuple members) (.tuple fields)))
  | .fixedArray size element, .fixedArray elements =>
    if elements.length = size then (elements.mapM (ofDatum element)).map .fixedArray
    else .error (.decoding (.mismatch (.fixedArray elements) (.fixedArray size element)))
  | .array element, .array elements => (elements.mapM (ofDatum element)).map .array
  | type, datum => .error (.decoding (.mismatch datum type))

def ofMembers : List Declaration → List Abi.Datum → Result (List (Named Value))
  | ⟨name, type⟩ :: fields, datum :: members => do
    let value ← ofDatum type datum
    let rest ← ofMembers fields members
    return ⟨name, value⟩ :: rest
  | _, _ => .ok []

end

/-- Checks elements in order; the first of them stands at `position`. -/
def checkElements (check : Value → Result Unit) (position : Nat) : List Value → Result Unit
  | [] => .ok ()
  | value :: values => do
    Result.within (.index position) (check value)
    checkElements check (position + 1) values

mutual

def check : Descriptor → Value → Result Unit
  | .address, .address _ => .ok ()
  | .bool, .bool _ => .ok ()
  | .string, .string _ => .ok ()
  | .bytes, .bytes _ => .ok ()
  | .uint256, .uint _ => .ok ()
  | .uint width, .uint value =>
    if value.toNat < 1 <<< width.bits then .ok () else .error (.encoding [] (.overflow value width))
  | .fixedBytes size, .fixedBytes data =>
    if data.length = size then .ok () else .error (.encoding [] (.byteCount size data.length))
  | .tuple types, .tuple fields =>
    if fields.length = types.length then checkFields types fields
    else .error (.encoding [] (.fieldCount types.length fields.length))
  | .fixedArray size element, .fixedArray elements =>
    if elements.length = size then checkElements (check element) 0 elements
    else .error (.encoding [] (.elementCount size elements.length))
  | .array element, .array elements => checkElements (check element) 0 elements
  | type, value => .error (.encoding [] (.kind (.ofType type) value.kind))

def checkFields : List Declaration → List (Named Value) → Result Unit
  | ⟨name, type⟩ :: types, ⟨_, value⟩ :: fields => do
    Result.within (.field name) (check type value)
    checkFields types fields
  | _, _ => .ok ()

end

end Value

/-- The fields of a tuple value that have not been taken yet. -/
structure TupleFields where
  fields : List (Named Value)
  deriving BEq, Repr

def Value.openTuple : Value → Result TupleFields
  | .tuple fields => .ok ⟨fields⟩
  | value => value.mismatch .tuple

def TupleFields.extract? (name : String) (left : TupleFields) : Option (Value × TupleFields) :=
  match left.fields.find? (·.name == name) with
  | some field => some (field.item, ⟨left.fields.eraseP (·.name == name)⟩)
  | none => none

end Attest
