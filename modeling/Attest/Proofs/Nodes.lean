import Mathlib.Algebra.Order.BigOperators.Group.List
import Attest.Proofs.Arrays
import Attest.Proofs.Published

set_option autoImplicit false

namespace Attest

open Abi

namespace Value

mutual

def nodes : Value → Nat
  | .tuple fields => 1 + fieldNodes fields
  | .fixedArray values | .array values => 1 + elementNodes values
  | _ => 1

def fieldNodes : List (Named Value) → Nat
  | [] => 0
  | ⟨_, value⟩ :: fields => value.nodes + fieldNodes fields

def elementNodes : List Value → Nat
  | [] => 0
  | value :: values => value.nodes + elementNodes values

end

theorem elementNodes_eq (values : List Value) : elementNodes values = (values.map nodes).sum := by
  induction values with
  | nil => rfl
  | cons v values ih => rw [elementNodes, ih, List.map_cons, List.sum_cons]

theorem elementNodes_le {values : List Value} {bound : Nat} (h : ∀ v ∈ values, v.nodes ≤ bound) :
    elementNodes values ≤ values.length * bound := by
  have hs : (values.map nodes).sum ≤ (values.map nodes).length * bound :=
    List.sum_le_card_nsmul _ bound (List.forall_mem_map.2 h)
  rwa [← elementNodes_eq, List.length_map] at hs

end Value

namespace Descriptor

mutual

/-- The nodes that a value of the type has at most, where no array of open length has more than
    `limit` elements. -/
def mostNodes (limit : Nat) : Descriptor → Nat
  | .tuple fields => 1 + mostFieldNodes limit fields
  | .fixedArray size element => 1 + size * element.mostNodes limit
  | .array element => 1 + limit * element.mostNodes limit
  | _ => 1

def mostFieldNodes (limit : Nat) : List Declaration → Nat
  | [] => 0
  | ⟨_, type⟩ :: fields => type.mostNodes limit + mostFieldNodes limit fields

end

end Descriptor

namespace Abi.Shape

mutual

theorem Proper.one_le_weight {shape : Shape} (h : shape.Proper) : 1 ≤ shape.weight := by
  cases shape with
  | tuple shapes =>
    rw [weight]
    split
    · exact Nat.le_refl 1
    · exact Nat.le_trans (List.length_pos_of_ne_nil h.1) (AllProper.length_le_allWeight h.2)
  | fixedArray size element =>
    rw [weight]
    split
    · exact Nat.le_refl 1
    · have he : element.Proper := h.2
      exact Nat.mul_le_mul h.1 he.one_le_weight
  | _ => exact Nat.le_refl 1

theorem AllProper.length_le_allWeight {shapes : List Shape} (h : AllProper shapes) :
    shapes.length ≤ allWeight shapes := by
  cases shapes with
  | nil => exact Nat.le_refl 0
  | cons shape shapes =>
    have hw := h.1.one_le_weight
    have hs := AllProper.length_le_allWeight h.2
    rw [List.length_cons, allWeight]
    omega

end

end Abi.Shape

section Bounds

variable {limit : Nat}

theorem elementNodes_le_of_metered {element : Descriptor} {values : List Value} {bound : Nat}
    (he : ∀ {v : Value}, HasType element v → element.shape.Metered limit v.datum → v.nodes ≤ bound)
    (hv : ∀ v ∈ values, HasType element v)
    (hm : ∀ d ∈ Value.elementData values, element.shape.Metered limit d) :
    Value.elementNodes values ≤ values.length * bound := by
  rw [Value.elementData_eq, List.forall_mem_map] at hm
  exact Value.elementNodes_le fun v hi => he (hv v hi) (hm v hi)

mutual

theorem nodes_le (type : Descriptor) {value : Value} (ht : type.Expressible)
    (h : HasType type value) (hm : type.shape.Metered limit value.datum) :
    value.nodes ≤ type.mostNodes limit := by
  cases h with
  | @tuple types fields h => exact Nat.add_le_add_left (fieldNodes_le types ht.2 h hm) 1
  | @fixedArray size element values hl h =>
    have hn := elementNodes_le_of_metered (nodes_le element ht.2) h hm
    rw [hl] at hn
    exact Nat.add_le_add_left hn 1
  | @array element values h =>
    have hw : 1 ≤ element.shape.weight := Shape.Proper.one_le_weight ht
    have hc : values.length ≤ limit := by
      have hd := Nat.le_trans (Nat.le_mul_of_pos_right _ hw) hm.1
      rwa [Value.elementData_eq, List.length_map] at hd
    have hn := elementNodes_le_of_metered (nodes_le element ht) h hm.2
    exact Nat.add_le_add_left (Nat.le_trans hn (Nat.mul_le_mul_right _ hc)) 1
  | _ => exact Nat.le_refl 1

theorem fieldNodes_le (types : List Declaration) {fields : List (Named Value)}
    (ht : Shape.AllProper (Descriptor.shapes types)) (h : HaveTypes types fields)
    (hm : Shape.AllMetered limit (Descriptor.shapes types) (Value.fieldData fields)) :
    Value.fieldNodes fields ≤ Descriptor.mostFieldNodes limit types := by
  cases h with
  | nil => exact Nat.le_refl 0
  | @cons name type value types fields hv hs =>
    exact Nat.add_le_add (nodes_le type ht.1 hv hm.1) (fieldNodes_le types ht.2 hs hm.2)

end

end Bounds

namespace Codec

variable {policy : Policy} {data : Bytes}

theorem decodeValues_nodes_le {types : List Descriptor} {values : List Value}
    (ht : ∀ type ∈ types, type.Expressible) (h : decodeValues policy types data = .ok values) :
    List.Forall₂ (fun type value => value.nodes ≤ type.mostNodes (data.length / 32))
      types values :=
  ((List.forall₂_and_left _ _).2 ⟨ht, decodeValues_metered h⟩).imp fun type _ hx =>
    nodes_le type hx.1 hx.2.1 hx.2.2

/-- No schema lets a payload of `n` bytes grow beyond what its types hold with arrays of `n / 32`
    elements. -/
theorem decodeFields_nodes_le {schema : String} {items : List Item}
    (h : decodeFields policy schema data = .ok items) :
    ∀ i ∈ items, i.value.nodes ≤ i.type.mostNodes (data.length / 32) := by
  rw [decodeFields, Result.bind_eq_ok] at h
  obtain ⟨declarations, hs, h⟩ := h
  rw [Result.bind_eq_ok] at h
  obtain ⟨values, hv, h⟩ := h
  cases h
  have hd := Descriptor.allLegible_iff.1 (Schema.parseList_sound hs).legible
  have ht : ∀ type ∈ declarations.map Named.item, type.Expressible := by
    rw [List.forall_mem_map]
    exact fun d hm => Descriptor.expressible_of_legible d.item (hd d hm).2
  exact (items_of_values (decodeValues_nodes_le ht hv)).1

/-- Two rows whose offsets both lead to the row `[true]`, in six words. -/
def sharedRows : Bytes := [32, 2, 64, 64, 1, 1].flatMap sizeWord

theorem decodeFields_nodes_le_sharedRows :
    decodeFields {} "bool[][] rows" sharedRows =
        .ok [⟨"rows", .array (.array .bool), .array [.array [.bool true], .array [.bool true]]⟩] ∧
      (Value.array [.array [.bool true], .array [.bool true]]).nodes ≤
        (Descriptor.array (.array .bool)).mostNodes 6 := by
  have hp : Schema.parse "bool[][] rows" = .ok [⟨"rows", .array (.array .bool)⟩] :=
    Schema.parse_of_joined (by decide) (by decide)
  have hd : decodeFields {} "bool[][] rows" sharedRows =
      .ok [⟨"rows", .array (.array .bool), .array [.array [.bool true], .array [.bool true]]⟩] := by
    rw [decodeFields, hp]
    cbv
  have hl : sharedRows.length / 32 = 6 := by decide +kernel
  have hn := decodeFields_nodes_le hd
  rw [hl] at hn
  exact ⟨hd, hn _ (List.mem_singleton_self _)⟩

end Codec

end Attest
