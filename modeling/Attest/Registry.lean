import Attest.Codec
import Attest.Json.Reader
import Attest.Keccak

set_option autoImplicit false

namespace Attest

namespace Schema

def commitment (schema : String) (resolver : Address) (revocable : Bool) : Bytes :=
  Text.utf8 schema.toList ++ resolver.bytes.toList ++ [if revocable then 1 else 0]

def uid (schema : String) (resolver : Address) (revocable : Bool) : Uid :=
  ⟨Keccak.hash (commitment schema resolver revocable)⟩

end Schema

def Uid.toJson (u : Uid) : Json := .string u.text

def Uid.ofJson? (json : Json) : Option Uid := do
  let text ← json.asString?
  (Uid.ofText text).toOption

def Address.toJson (a : Address) : Json := .string a.text

def Address.ofJson? (json : Json) : Option Address := do
  let text ← json.asString?
  Address.ofText? text

/-- Reads a byte string of any length, written with or without a marker in either case. -/
def Bytes.ofJson? (json : Json) : Option Bytes := do
  let text ← json.asString?
  (Text.readHex (Text.dropEitherMarker text.toList)).toOption

structure SchemaRecord where
  uid : Uid
  resolver : Address
  revocable : Bool
  schema : String
  deriving DecidableEq, Repr

namespace SchemaRecord

/-- The record of a schema under the identifier that its other fields give. -/
def register (schema : String) (resolver : Address) (revocable : Bool) : SchemaRecord where
  uid := Schema.uid schema resolver revocable
  resolver := resolver
  revocable := revocable
  schema := schema

def isConsistent (record : SchemaRecord) : Bool :=
  record.uid = Schema.uid record.schema record.resolver record.revocable

def toJson (record : SchemaRecord) : Json :=
  .object
    [("uid", record.uid.toJson),
     ("resolver", record.resolver.toJson),
     ("revocable", .bool record.revocable),
     ("schema", .string record.schema)]

def ofJson? (json : Json) : Option SchemaRecord := do
  match ← json.members? ["uid", "resolver", "revocable", "schema"] with
  | [uid, resolver, revocable, schema] =>
    return {
      uid := ← Uid.ofJson? uid
      resolver := ← Address.ofJson? resolver
      revocable := ← revocable.asBool?
      schema := ← schema.asString? }
  | _ => none

def text (record : SchemaRecord) : String := record.toJson.compact

def ofText? : String → Option SchemaRecord := Json.readAs ofJson?

end SchemaRecord

structure Attestation where
  uid : Uid
  schema : Uid
  time : UInt64
  expirationTime : UInt64
  revocationTime : UInt64
  refUid : Uid
  recipient : Address
  attester : Address
  revocable : Bool
  data : Bytes
  deriving DecidableEq, Repr

namespace Attestation

def ofData (data : Bytes) : Attestation where
  uid := .zero
  schema := .zero
  time := 0
  expirationTime := 0
  revocationTime := 0
  refUid := .zero
  recipient := .zero
  attester := .zero
  revocable := false
  data := data

def isRevoked (a : Attestation) : Bool := a.revocationTime ≠ 0

def isExpired (a : Attestation) (now : UInt64) : Bool :=
  a.expirationTime ≠ 0 && a.expirationTime ≤ now

def fields (policy : Policy) (schema : String) (a : Attestation) : Result (List Item) :=
  Codec.decodeFields policy schema a.data

def scanValues (policy : Policy) (a : Attestation) (slots : List Slot) :
    Result Unit × List Slot :=
  Codec.unpack policy a.data slots

def toJson (a : Attestation) : Json :=
  .object
    [("uid", a.uid.toJson),
     ("schema", a.schema.toJson),
     ("time", .natural a.time.toNat),
     ("expirationTime", .natural a.expirationTime.toNat),
     ("revocationTime", .natural a.revocationTime.toNat),
     ("refUid", a.refUid.toJson),
     ("recipient", a.recipient.toJson),
     ("attester", a.attester.toJson),
     ("revocable", .bool a.revocable),
     ("data", .string (String.ofList (Text.hexMarked a.data)))]

def ofJson? (json : Json) : Option Attestation := do
  match ← json.members?
    ["uid", "schema", "time", "expirationTime", "revocationTime", "refUid", "recipient", "attester",
      "revocable", "data"] with
  | [uid, schema, time, expirationTime, revocationTime, refUid, recipient, attester, revocable,
      data] =>
    return {
      uid := ← Uid.ofJson? uid
      schema := ← Uid.ofJson? schema
      time := ← time.asUInt64?
      expirationTime := ← expirationTime.asUInt64?
      revocationTime := ← revocationTime.asUInt64?
      refUid := ← Uid.ofJson? refUid
      recipient := ← Address.ofJson? recipient
      attester := ← Address.ofJson? attester
      revocable := ← revocable.asBool?
      data := ← Bytes.ofJson? data }
  | _ => none

def text (a : Attestation) : String := a.toJson.compact

def ofText? : String → Option Attestation := Json.readAs ofJson?

end Attestation

end Attest
