import Attest.Address
import Attest.Descriptor
import Attest.Uid

set_option autoImplicit false

/-!
# Host types

The types in which a host program holds values, and their values. Each host type resolves to one
descriptor. Pointers and options are transparent. A sequence of bytes is special: a growing one is
`bytes` and one of 32 is `bytes32`; this asks for the byte type itself, not for a wrapped one.
-/
namespace Attest

inductive Scalar where
  | uint (width : UintWidth)
  | word
  | natural
  | bool
  | string
  /-- Text that someone else owns. -/
  | stringView
  | address
  | hash
  | uid
  | bytes
  deriving DecidableEq, Repr

inductive Pointer where
  | boxed
  | shared
  | borrowed
  deriving DecidableEq, Repr

/-- How long a sequence is: as long as it grows, as long as what it views, or of a fixed size. -/
inductive Extent where
  | growing
  | view
  | fixed (size : Nat)
  deriving DecidableEq, Repr

inductive HostType where
  | scalar (scalar : Scalar)
  | pointer (kind : Pointer) (target : HostType)
  | optional (target : HostType)
  | sequence (extent : Extent) (element : HostType)
  | record (name : String) (fields : List (Named HostType))
  deriving Repr

namespace Scalar

def Val : Scalar → Type
  | .uint width => BitVec width.bits
  | .word => Word
  | .natural => Nat
  | .bool => Bool
  | .string | .stringView => String
  | .address => Address
  | .hash => Vector UInt8 32
  | .uid => Uid
  | .bytes => Bytes

def descriptor : Scalar → Descriptor
  | .uint width => .uint width
  | .word | .natural => .uint256
  | .bool => .bool
  | .string | .stringView => .string
  | .address => .address
  | .hash | .uid => .fixedBytes 32
  | .bytes => .bytes

end Scalar

namespace Extent

def Of (α : Type) : Extent → Type
  | .growing | .view => List α
  | .fixed size => Vector α size

def size? : Extent → Option Nat
  | .growing | .view => none
  | .fixed size => some size

def toList {α : Type} : (extent : Extent) → extent.Of α → List α
  | .growing, items | .view, items => items
  | .fixed _, items => Vector.toList items

def ofList? {α : Type} : (extent : Extent) → List α → Option (extent.Of α)
  | .growing, items | .view, items => some items
  | .fixed size, items =>
    if h : items.length = size then some (⟨items.toArray, by simpa using h⟩ : Vector α size)
    else none

end Extent

namespace HostType

mutual

def Val : HostType → Type
  | .scalar s => s.Val
  | .pointer _ target => target.Val
  | .optional target => Option target.Val
  | .sequence extent element => extent.Of element.Val
  | .record _ fields => Vals fields

def Vals : List (Named HostType) → Type
  | [] => Unit
  | ⟨_, type⟩ :: fields => type.Val × Vals fields

end

def isByte : HostType → Bool
  | .scalar (.uint .w8) => true
  | _ => false

def sequenceDescriptor (byte : Bool) (element : Descriptor) : Option Nat → Descriptor
  | none => if byte then .bytes else .array element
  | some size => if byte ∧ size = 32 then .fixedBytes 32 else .fixedArray size element

mutual

def descriptor : HostType → Descriptor
  | .scalar s => s.descriptor
  | .pointer _ target => target.descriptor
  | .optional target => target.descriptor
  | .sequence extent element =>
    sequenceDescriptor element.isByte element.descriptor extent.size?
  | .record _ fields => .tuple (fieldDescriptors fields)

def fieldDescriptors : List (Named HostType) → List Declaration
  | [] => []
  | ⟨name, type⟩ :: fields => ⟨name, type.descriptor⟩ :: fieldDescriptors fields

end

mutual

/-- Whether values can be made from nothing but data: no part is a view or borrowed. -/
def isOwned : HostType → Bool
  | .scalar s => s ≠ .stringView
  | .pointer kind target => kind ≠ .borrowed && target.isOwned
  | .optional target => target.isOwned
  | .sequence extent element => extent ≠ .view && element.isOwned
  | .record _ fields => areOwned fields

def areOwned : List (Named HostType) → Bool
  | [] => true
  | ⟨_, type⟩ :: fields => type.isOwned && areOwned fields

end

mutual

def same : HostType → HostType → Bool
  | .scalar s, .scalar s' => s = s'
  | .pointer kind target, .pointer kind' target' => kind = kind' && target.same target'
  | .optional target, .optional target' => target.same target'
  | .sequence extent element, .sequence extent' element' =>
    extent = extent' && element.same element'
  | .record name fields, .record name' fields' => name = name' && sameFields fields fields'
  | _, _ => false

def sameFields : List (Named HostType) → List (Named HostType) → Bool
  | [], [] => true
  | ⟨name, type⟩ :: fields, ⟨name', type'⟩ :: fields' =>
    name = name' && type.same type' && sameFields fields fields'
  | _, _ => false

end

mutual

theorem same_refl : (t : HostType) → t.same t = true
  | .scalar _ => by simp [same]
  | .pointer _ target => by simp [same, same_refl target]
  | .optional target => by simp [same, same_refl target]
  | .sequence _ element => by simp [same, same_refl element]
  | .record _ fields => by simp [same, sameFields_refl fields]

theorem sameFields_refl : (fields : List (Named HostType)) → sameFields fields fields = true
  | [] => rfl
  | ⟨_, type⟩ :: fields => by simp [sameFields, same_refl type, sameFields_refl fields]

end

mutual

theorem eq_of_same : {t u : HostType} → t.same u = true → t = u
  | .scalar _, u, h => by
    cases u <;> simp_all [same]
  | .pointer _ target, u, h => by
    cases u <;> simp only [same, Bool.and_eq_true, decide_eq_true_eq, Bool.false_eq_true] at h
    rw [h.1, eq_of_same h.2]
  | .optional target, u, h => by
    cases u <;> simp only [same, Bool.false_eq_true] at h
    rw [eq_of_same h]
  | .sequence _ element, u, h => by
    cases u <;> simp only [same, Bool.and_eq_true, decide_eq_true_eq, Bool.false_eq_true] at h
    rw [h.1, eq_of_same h.2]
  | .record _ fields, u, h => by
    cases u <;> simp only [same, Bool.and_eq_true, decide_eq_true_eq, Bool.false_eq_true] at h
    rw [h.1, eq_of_sameFields h.2]

theorem eq_of_sameFields : {fields others : List (Named HostType)} →
    sameFields fields others = true → fields = others
  | [], others, h => by
    cases others with
    | nil => rfl
    | cons _ _ => simp [sameFields] at h
  | ⟨_, type⟩ :: fields, others, h => by
    cases others with
    | nil => simp [sameFields] at h
    | cons other others =>
      simp only [sameFields, Bool.and_eq_true, decide_eq_true_eq] at h
      rw [eq_of_sameFields h.2, h.1.1, eq_of_same h.1.2]

end

instance : DecidableEq HostType := fun t u =>
  if h : t.same u = true then isTrue (eq_of_same h) else isFalse fun e => h (e ▸ same_refl t)

theorem isByte_eq_true_iff {t : HostType} : t.isByte = true ↔ t = .scalar (.uint .w8) := by
  constructor
  · intro h
    unfold isByte at h
    split at h
    · rfl
    · cases h
  · rintro rfl
    rfl

theorem fieldDescriptors_eq (fields : List (Named HostType)) :
    fieldDescriptors fields = fields.map (Named.map descriptor) := by
  induction fields with
  | nil => rfl
  | cons field fields ih => simp [fieldDescriptors, Named.map, ih]

end HostType

/-- The name that a record field carries. The first part of its label between commas wins,
    unless it is empty; otherwise the identifier does, less the marker of a raw identifier. -/
def fieldName (label : Option String) (identifier : String) : String :=
  match label.map fun text => text.toList.takeWhile (· ≠ ',') with
  | some (c :: name) => String.ofList (c :: name)
  | _ =>
    match identifier.toList with
    | 'r' :: '#' :: name => String.ofList name
    | name => String.ofList name

end Attest
