import Attest.Json.Tree
import Attest.Value

set_option autoImplicit false

namespace Attest

structure Item where
  name : String
  type : Descriptor
  value : Value
  deriving BEq, Repr

namespace Value

mutual

def toJson : Value → Json
  | .address a => .string a.text
  | .bool value => .bool value
  | .string text => .string text
  | .fixedBytes data | .bytes data => .string (String.ofList (Text.hexMarked data))
  | .uint value => .string (String.ofList (Text.decimal value.toNat))
  | .tuple fields => .object (fieldsToJson fields)
  | .fixedArray elements | .array elements => .array (elementsToJson elements)

def fieldsToJson : List (Named Value) → List (String × Json)
  | [] => []
  | ⟨name, value⟩ :: fields => (name, value.toJson) :: fieldsToJson fields

def elementsToJson : List Value → List Json
  | [] => []
  | value :: values => value.toJson :: elementsToJson values

end

end Value

namespace Item

def toJson (item : Item) : Json :=
  .object
    [("name", .string item.name),
     ("type", .string item.type.text),
     ("value", item.value.toJson)]

def listToJson (items : List Item) : Json := .array (items.map toJson)

end Item

end Attest
