import Attest.Address
import Attest.Text.Decimal

set_option autoImplicit false

namespace Attest.Abi

inductive Shape where
  | address
  | bool
  | string
  | fixedBytes (size : Nat)
  | bytes
  | uint (bits : Nat)
  | tuple (members : List Shape)
  | fixedArray (size : Nat) (element : Shape)
  | array (element : Shape)
  deriving BEq, Repr

inductive Datum where
  | address (address : Address)
  | bool (value : Bool)
  | string (text : String)
  | fixedBytes (data : Bytes)
  | bytes (data : Bytes)
  | uint (value : Word)
  | tuple (members : List Datum)
  | fixedArray (elements : List Datum)
  | array (elements : List Datum)
  deriving BEq, Repr

namespace Shape

mutual

def isDynamic : Shape → Bool
  | .string | .bytes | .array _ => true
  | .tuple members => anyDynamic members
  | .fixedArray _ element => element.isDynamic
  | _ => false

def anyDynamic : List Shape → Bool
  | [] => false
  | shape :: shapes => shape.isDynamic || anyDynamic shapes

end

mutual

def render : Shape → List Char
  | .address => "address".toList
  | .bool => "bool".toList
  | .string => "string".toList
  | .fixedBytes size => "bytes".toList ++ Text.decimal size
  | .bytes => "bytes".toList
  | .uint bits => "uint".toList ++ Text.decimal bits
  | .tuple members => '(' :: [','].intercalate (renderAll members) ++ [')']
  | .fixedArray size element => element.render ++ '[' :: Text.decimal size ++ [']']
  | .array element => element.render ++ ['[', ']']

def renderAll : List Shape → List (List Char)
  | [] => []
  | shape :: shapes => shape.render :: renderAll shapes

end

def text (shape : Shape) : String := String.ofList shape.render

end Shape

namespace Datum

mutual

def render : Datum → List Char
  | .address a => Text.hex a.bytes.toList
  | .bool value => (toString value).toList
  | .string text => text.toList
  | .fixedBytes data | .bytes data => Text.hex data
  | .uint value => Nat.toDigits 16 value.toNat
  | .tuple members => '(' :: [','].intercalate (renderAll members) ++ [')']
  | .fixedArray elements | .array elements => '[' :: [','].intercalate (renderAll elements) ++ [']']

def renderAll : List Datum → List (List Char)
  | [] => []
  | datum :: data => datum.render :: renderAll data

end

end Datum

end Attest.Abi
