import Attest.Proofs.Abi.RoundTrip
import Attest.Host.Type
import Attest.Value

set_option autoImplicit false

namespace Attest.HostType

open Abi

mutual

/-- Whether every record in the type has a field. -/
def Filled : HostType → Prop
  | .scalar _ => True
  | .pointer _ target | .optional target => target.Filled
  | .sequence _ element => element.Filled
  | .record _ fields => fields ≠ [] ∧ AllFilled fields

def AllFilled : List (Named HostType) → Prop
  | [] => True
  | ⟨_, type⟩ :: fields => type.Filled ∧ AllFilled fields

end

theorem sequenceDescriptor_induction (p : Descriptor → Prop) {element : Descriptor}
    {byte : Bool} {size : Option Nat} (hb : p .bytes) (hf : p (.fixedBytes 32))
    (ha : p (.array element)) (hn : ∀ n, p (.fixedArray n element)) :
    p (sequenceDescriptor byte element size) := by
  cases size with
  | none =>
    rw [sequenceDescriptor]
    split
    · exact hb
    · exact ha
  | some size =>
    rw [sequenceDescriptor]
    split
    · exact hf
    · exact hn size

mutual

theorem sized (t : HostType) : t.descriptor.shape.Sized := by
  cases t with
  | scalar s => cases s <;> simp [descriptor, Scalar.descriptor, Descriptor.shape, Shape.Sized]
  | pointer kind target => exact sized target
  | optional target => exact sized target
  | sequence extent element =>
    have he := sized element
    have hb : (Shape.fixedBytes 32).Sized := ⟨by decide, by decide⟩
    exact sequenceDescriptor_induction (fun d => d.shape.Sized) trivial hb he fun _ => he
  | record name fields => exact allSized fields

theorem allSized (fields : List (Named HostType)) :
    Shape.AllSized (Descriptor.shapes (fieldDescriptors fields)) := by
  cases fields with
  | nil => trivial
  | cons field fields => exact ⟨sized field.item, allSized fields⟩

end

mutual

theorem hasEmptyTuple_eq_false (t : HostType) (h : t.Filled) :
    t.descriptor.hasEmptyTuple = false := by
  cases t with
  | scalar s => cases s <;> rfl
  | pointer kind target => exact hasEmptyTuple_eq_false target h
  | optional target => exact hasEmptyTuple_eq_false target h
  | sequence extent element =>
    have he := hasEmptyTuple_eq_false element h
    exact sequenceDescriptor_induction (fun d => d.hasEmptyTuple = false) rfl rfl he fun _ => he
  | record name fields =>
    have hn : (fieldDescriptors fields).isEmpty = false := by
      cases fields with
      | nil => exact absurd rfl h.1
      | cons field fields => rfl
    rw [descriptor, Descriptor.hasEmptyTuple, hn, anyEmptyTuple_eq_false fields h.2]
    rfl

theorem anyEmptyTuple_eq_false (fields : List (Named HostType)) (h : AllFilled fields) :
    Descriptor.anyEmptyTuple (fieldDescriptors fields) = false := by
  cases fields with
  | nil => rfl
  | cons field fields =>
    rw [fieldDescriptors, Descriptor.anyEmptyTuple, hasEmptyTuple_eq_false field.item h.1,
      anyEmptyTuple_eq_false fields h.2]
    rfl

end

end Attest.HostType
