import Attest.Text.Decimal

set_option autoImplicit false

/-!
# Types of attestation values

A descriptor is the type of a value that a payload can hold. Its text is the one that schemas use:
each array dimension stands to the right of the element's own, and a tuple lists its fields with
their names.
-/
namespace Attest

inductive UintWidth where
  | w8
  | w16
  | w32
  | w64
  deriving DecidableEq, Repr

namespace UintWidth

def bits : UintWidth → Nat
  | .w8 => 8
  | .w16 => 16
  | .w32 => 32
  | .w64 => 64

def ofBits? : Nat → Option UintWidth
  | 8 => some .w8
  | 16 => some .w16
  | 32 => some .w32
  | 64 => some .w64
  | _ => none

theorem ofBits?_eq_some_iff {n : Nat} {w : UintWidth} : ofBits? n = some w ↔ n = w.bits := by
  constructor
  · intro h
    unfold ofBits? at h
    split at h <;> cases h <;> rfl
  · rintro rfl
    cases w <;> rfl

end UintWidth

/-- Something with the name that it carries in a tuple or a schema, which may be empty. -/
structure Named (α : Type) where
  name : String
  item : α
  deriving BEq, DecidableEq, Repr

namespace Named

def map {α β : Type} (f : α → β) (x : Named α) : Named β := ⟨x.name, f x.item⟩

end Named

inductive Descriptor where
  | address
  | bool
  | string
  | fixedBytes (size : Nat)
  | bytes
  | uint (width : UintWidth)
  | uint256
  | tuple (fields : List (Named Descriptor))
  | fixedArray (size : Nat) (element : Descriptor)
  | array (element : Descriptor)
  deriving BEq, Repr

abbrev Declaration := Named Descriptor

namespace Descriptor

mutual

/-- Whether a value of the type stands in the tail of an encoding. -/
def isDynamic : Descriptor → Bool
  | .string | .bytes | .array _ => true
  | .tuple fields => anyDynamic fields
  | .fixedArray _ element => element.isDynamic
  | _ => false

def anyDynamic : List Declaration → Bool
  | [] => false
  | ⟨_, type⟩ :: fields => type.isDynamic || anyDynamic fields

end

mutual

def hasEmptyTuple : Descriptor → Bool
  | .tuple fields => fields.isEmpty || anyEmptyTuple fields
  | .fixedArray _ element | .array element => element.hasEmptyTuple
  | _ => false

def anyEmptyTuple : List Declaration → Bool
  | [] => false
  | ⟨_, type⟩ :: fields => type.hasEmptyTuple || anyEmptyTuple fields

end

def fieldNames? : Descriptor → Option (List String)
  | .tuple fields => some (fields.map Named.name)
  | _ => none

def separator : List Char := [',', ' ']

def renderNamed (name : String) (type : List Char) : List Char :=
  if name.toList = [] then type else type ++ ' ' :: name.toList

mutual

def render : Descriptor → List Char
  | .address => "address".toList
  | .bool => "bool".toList
  | .string => "string".toList
  | .fixedBytes size => "bytes".toList ++ Text.decimal size
  | .bytes => "bytes".toList
  | .uint width => "uint".toList ++ Text.decimal width.bits
  | .uint256 => "uint256".toList
  | .tuple fields => '(' :: separator.intercalate (renderFields fields) ++ [')']
  | .fixedArray size element => element.render ++ '[' :: Text.decimal size ++ [']']
  | .array element => element.render ++ ['[', ']']

def renderFields : List Declaration → List (List Char)
  | [] => []
  | ⟨name, type⟩ :: fields => renderNamed name type.render :: renderFields fields

end

def text (type : Descriptor) : String := String.ofList type.render

end Descriptor

namespace Declaration

def unnamed (type : Descriptor) : Declaration := ⟨"", type⟩

def render (d : Declaration) : List Char := Descriptor.renderNamed d.name d.item.render

def text (d : Declaration) : String := String.ofList d.render

end Declaration

theorem Descriptor.renderFields_eq (fields : List Declaration) :
    renderFields fields = fields.map Declaration.render := by
  induction fields with
  | nil => rfl
  | cons field fields ih => simp [renderFields, Declaration.render, ih]

example : (Descriptor.fixedArray 3 (.array (.fixedArray 2 .string))).text = "string[2][][3]" := rfl

end Attest
