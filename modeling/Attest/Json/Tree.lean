import Attest.Text.Decimal

set_option autoImplicit false

namespace Attest

inductive Json where
  | null
  | bool (value : Bool)
  | natural (value : Nat)
  | string (text : String)
  /-- A number that is not written as a natural one, a string whose escapes denote no text, or an
      object with such a name; kept as it was written. -/
  | other (lexeme : List Char)
  | array (elements : List Json)
  | object (members : List (String × Json))
  deriving BEq, Repr

namespace Json

def escape (c : Char) : List Char :=
  if c = '"' || c = '\\' then ['\\', c]
  else if c.toNat = 8 then ['\\', 'b']
  else if c = '\t' then ['\\', 't']
  else if c = '\n' then ['\\', 'n']
  else if c.toNat = 12 then ['\\', 'f']
  else if c = '\r' then ['\\', 'r']
  else if c.toNat < 32 then
    ['\\', 'u', '0', '0', Text.hexDigit (c.toNat / 16), Text.hexDigit (c.toNat % 16)]
  else [c]

def stringText (text : String) : List Char := '"' :: text.toList.flatMap escape ++ ['"']

def leafText : Json → List Char
  | .null => "null".toList
  | .bool true => "true".toList
  | .bool false => "false".toList
  | .natural value => Text.decimal value
  | .string text => stringText text
  | .other lexeme => lexeme
  | .array _ | .object _ => []

mutual

def render : Json → List Char
  | .array elements => '[' :: [','].intercalate (renderElements elements) ++ [']']
  | .object members => '{' :: [','].intercalate (renderMembers members) ++ ['}']
  | leaf => leafText leaf

def renderElements : List Json → List (List Char)
  | [] => []
  | element :: elements => element.render :: renderElements elements

def renderMembers : List (String × Json) → List (List Char)
  | [] => []
  | (name, value) :: members => (stringText name ++ ':' :: value.render) :: renderMembers members

end

def compact (json : Json) : String := String.ofList json.render

def newLine (level : Nat) : List Char := '\n' :: List.replicate (2 * level) ' '

mutual

def renderPretty (level : Nat) : Json → List Char
  | .array [] => ['[', ']']
  | .array elements =>
    '[' :: newLine (level + 1)
      ++ (',' :: newLine (level + 1)).intercalate (prettyElements (level + 1) elements)
      ++ newLine level ++ [']']
  | .object [] => ['{', '}']
  | .object members =>
    '{' :: newLine (level + 1)
      ++ (',' :: newLine (level + 1)).intercalate (prettyMembers (level + 1) members)
      ++ newLine level ++ ['}']
  | leaf => leafText leaf

def prettyElements (level : Nat) : List Json → List (List Char)
  | [] => []
  | element :: elements => element.renderPretty level :: prettyElements level elements

def prettyMembers (level : Nat) : List (String × Json) → List (List Char)
  | [] => []
  | (name, value) :: members =>
    (stringText name ++ ':' :: ' ' :: value.renderPretty level) :: prettyMembers level members

end

def pretty (json : Json) : String := String.ofList (json.renderPretty 0)

def single? (name : String) (members : List (String × Json)) : Option Json :=
  match members.filter (·.1 == name) with
  | [(_, value)] => some value
  | _ => none

def optional? (name : String) (members : List (String × Json)) : Option (Option Json) :=
  match members.filter (·.1 == name) with
  | [] => some none
  | [(_, value)] => some (some value)
  | _ => none

/-- The values of a record with members of these names: in an object by name, and other names are
    passed over; in an array by place, and there is exactly one element for each. -/
def members? (names : List String) : Json → Option (List Json)
  | .object members => names.mapM fun name => single? name members
  | .array elements => if elements.length = names.length then some elements else none
  | _ => none

/-- The same for members that may be missing, in an array from the end. -/
def optionalMembers? (names : List String) : Json → Option (List (Option Json))
  | .object members => names.mapM fun name => optional? name members
  | .array elements =>
    if elements.length ≤ names.length then
      some (elements.map some ++ List.replicate (names.length - elements.length) none)
    else none
  | _ => none

def asObject? : Json → Option (List (String × Json))
  | .object members => some members
  | _ => none

def asString? : Json → Option String
  | .string text => some text
  | _ => none

def asBool? : Json → Option Bool
  | .bool value => some value
  | _ => none

def asUInt64? : Json → Option UInt64
  | .natural value => if value < UInt64.size then some (UInt64.ofNat value) else none
  | _ => none

end Json

end Attest
