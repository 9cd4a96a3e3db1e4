import Attest.Schema.Brackets

set_option autoImplicit false

namespace Attest.Schema

/-- The text inside, when the parenthesis that a text begins with closes at its very end. -/
def enclosed? (text : List Char) : Option (List Char) :=
  match text with
  | '(' :: body =>
    match closing? 0 body with
    | some (inner, []) => some inner
    | _ => none
  | _ => none

def render (declarations : List Declaration) : List Char :=
  let text := Descriptor.separator.intercalate (declarations.map Declaration.render)
  if declarations.length = 1 then (enclosed? text).getD text else text

def format (declarations : List Declaration) : String := String.ofList (render declarations)

end Attest.Schema
