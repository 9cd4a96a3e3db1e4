import Attest.Abi.Encoding
import Attest.Host.Slot
import Attest.Item
import Attest.Policy
import Attest.Schema.Format
import Attest.Schema.Parser

set_option autoImplicit false

/-!
# Payloads

A payload is the ABI encoding of an argument list as the members of one tuple. It is packed from
host values or from the items of a schema, and decoded by types, by a schema, or into host slots.
Conversion of all values comes before any slot is written.
-/
namespace Attest

namespace Codec

/-- Collects results in order; a failure is placed at the argument it comes from. -/
def collect {α β : Type} (convert : α → Result β) (position : Nat) : List α → Result (List β)
  | [] => .ok []
  | item :: items => do
    let converted ← Result.within (.argument position) (convert item)
    let rest ← collect convert (position + 1) items
    return converted :: rest

def pack (arguments : List Argument) : Result Bytes :=
  (collect Argument.toDatum 0 arguments).map Abi.encode

def itemDatum (item : Item) : Result Abi.Datum := do
  item.value.check item.type
  return item.value.datum

def encodeItems (items : List Item) : Result Bytes := (collect itemDatum 0 items).map Abi.encode

/-- Refuses payloads over the limit and types with empty tuples. Such tuples take no bytes of a
    payload, so the length word of an array of them would be the only bound of its size. -/
def accept (policy : Policy) (types : List Descriptor) (data : Bytes) : Except DecodeFault Unit := do
  match policy.maxLength with
  | some limit => if limit < data.length then throw (.tooLong data.length limit)
  | none => pure ()
  match types.find? Descriptor.hasEmptyTuple with
  | some type => throw (.emptyTuple type)
  | none => pure ()

/-- Decodes the data of accepted types; under a strict policy they must encode to the payload. -/
def decodeData (policy : Policy) (types : List Descriptor) (data : Bytes) :
    Except DecodeFault (List Abi.Datum) :=
  match Abi.decode (types.map Descriptor.shape) data with
  | .error fault => .error (.abi fault)
  | .ok values =>
    if policy.strict && Abi.encode values ≠ data then .error .notCanonical else .ok values

def nameData : List Descriptor → List Abi.Datum → Result (List Value)
  | type :: types, datum :: data => do
    let value ← Value.ofDatum type datum
    let values ← nameData types data
    return value :: values
  | _, _ => .ok []

def decodeValues (policy : Policy) (types : List Descriptor) (data : Bytes) :
    Result (List Value) := do
  (accept policy types data).mapError .decoding
  let values ← (decodeData policy types data).mapError .decoding
  nameData types values

def decodeFields (policy : Policy) (schema : String) (data : Bytes) : Result (List Item) := do
  let declarations ← Schema.parse schema
  let values ← decodeValues policy (declarations.map Named.item) data
  return declarations.zipWith (fun d value => ⟨d.name, d.item, value⟩) values

def decodeValue (policy : Policy) (type : HostType) (data : Bytes) : Result type.Val := do
  let values ← decodeValues policy [type.descriptor] data
  match values.getLast? with
  | some value => Result.within (.argument 0) (type.decode value)
  | none => .error (.decoding .noValue)

def stageAll (slots : List Slot) (values : List Value) : Result (List Staged) :=
  collect (fun (slot, value) => Slot.stage slot value) 0 (slots.zip values)

/-- Commits to slots in order and stops at one that fails. What was written before stays written. -/
def commitAll (position : Nat) : List Slot → List Staged → Result Unit × List Slot
  | slot :: slots, staged :: rest =>
    let (outcome, written) := slot.commit staged
    match Result.within (.argument position) outcome with
    | .error failure => (.error failure, written :: slots)
    | .ok () =>
      let (outcome, slots) := commitAll (position + 1) slots rest
      (outcome, written :: slots)
  | slots, _ => (.ok (), slots)

/-- Writes one value to each slot. Returns the slots as they are afterwards, in failure as well. -/
def inject (values : List Value) (slots : List Slot) : Result Unit × List Slot :=
  if values.length ≠ slots.length then (.error (.arity slots.length values.length), slots)
  else
    match stageAll slots values with
    | .error failure => (.error failure, slots)
    | .ok staged => commitAll 0 slots staged

def unpack (policy : Policy) (data : Bytes) (slots : List Slot) : Result Unit × List Slot :=
  match decodeValues policy (slots.map (·.type.descriptor)) data with
  | .error failure => (.error failure, slots)
  | .ok values => inject values slots

def schemaOf (arguments : List Argument) : String :=
  Schema.format (arguments.map fun a => Declaration.unnamed a.type.descriptor)

def schemaFor (type : HostType) : String := Schema.format [Declaration.unnamed type.descriptor]

end Codec

end Attest
