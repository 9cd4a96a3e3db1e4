import Attest.Proofs.Abi.Weight
import Attest.Proofs.Codec

set_option autoImplicit false

namespace Attest

open Abi

namespace Value

mutual

def arrays : Descriptor → Value → List (Descriptor × List Value)
  | .tuple types, .tuple fields => fieldArrays types fields
  | .fixedArray _ element, .fixedArray values => values.flatMap (arrays element)
  | .array element, .array values => (element, values) :: values.flatMap (arrays element)
  | _, _ => []

def fieldArrays : List Declaration → List (Named Value) → List (Descriptor × List Value)
  | ⟨_, type⟩ :: types, ⟨_, value⟩ :: fields => arrays type value ++ fieldArrays types fields
  | _, _ => []

end

end Value

section Bounds

variable {limit : Nat}

theorem arrays_le_of_elements {element : Descriptor} {values : List Value}
    (he : ∀ {v : Value}, HasType element v → element.shape.Metered limit v.datum →
      ∀ p ∈ v.arrays element, p.2.length * p.1.shape.weight ≤ limit)
    (hv : ∀ v ∈ values, HasType element v)
    (hm : ∀ d ∈ Value.elementData values, element.shape.Metered limit d) :
    ∀ p ∈ values.flatMap (Value.arrays element), p.2.length * p.1.shape.weight ≤ limit := by
  rw [Value.elementData_eq, List.forall_mem_map] at hm
  intro p hp
  obtain ⟨v, hi, hp⟩ := List.mem_flatMap.1 hp
  exact he (hv v hi) (hm v hi) p hp

mutual

theorem arrays_le (type : Descriptor) {value : Value} (h : HasType type value)
    (hm : type.shape.Metered limit value.datum) :
    ∀ p ∈ value.arrays type, p.2.length * p.1.shape.weight ≤ limit := by
  cases h with
  | @tuple types fields h => exact fieldArrays_le types h hm
  | @fixedArray size element values hl h =>
    exact arrays_le_of_elements (arrays_le element) h hm
  | @array element values h =>
    have hn : (Value.elementData values).length = values.length := by
      rw [Value.elementData_eq, List.length_map]
    exact List.forall_mem_cons.2
      ⟨hn ▸ hm.1, arrays_le_of_elements (arrays_le element) h hm.2⟩
  | _ => nofun

theorem fieldArrays_le (types : List Declaration) {fields : List (Named Value)}
    (h : HaveTypes types fields)
    (hm : Shape.AllMetered limit (Descriptor.shapes types) (Value.fieldData fields)) :
    ∀ p ∈ Value.fieldArrays types fields, p.2.length * p.1.shape.weight ≤ limit := by
  cases h with
  | nil => nofun
  | @cons name type value types fields hv hs =>
    intro p hp
    rcases List.mem_append.1 hp with hp | hp
    · exact arrays_le type hv hm.1 p hp
    · exact fieldArrays_le types hs hm.2 p hp

end

end Bounds

mutual

theorem hasEmptyTuple_of_mem_arrays (type : Descriptor) {value : Value} (h : HasType type value)
    (he : type.hasEmptyTuple = false) :
    ∀ p ∈ value.arrays type, p.1.hasEmptyTuple = false := by
  cases h with
  | @tuple types fields h =>
    rw [Descriptor.hasEmptyTuple, Bool.or_eq_false_iff] at he
    exact hasEmptyTuple_of_mem_fieldArrays types h he.2
  | @fixedArray size element values hl h =>
    intro p hp
    obtain ⟨v, hv, hp⟩ := List.mem_flatMap.1 hp
    exact hasEmptyTuple_of_mem_arrays element (h v hv) he p hp
  | @array element values h =>
    refine List.forall_mem_cons.2 ⟨he, fun p hp => ?_⟩
    obtain ⟨v, hv, hp⟩ := List.mem_flatMap.1 hp
    exact hasEmptyTuple_of_mem_arrays element (h v hv) he p hp
  | _ => nofun

theorem hasEmptyTuple_of_mem_fieldArrays (types : List Declaration) {fields : List (Named Value)}
    (h : HaveTypes types fields) (he : Descriptor.anyEmptyTuple types = false) :
    ∀ p ∈ Value.fieldArrays types fields, p.1.hasEmptyTuple = false := by
  cases h with
  | nil => nofun
  | @cons name type value types fields hv hs =>
    rw [Descriptor.anyEmptyTuple, Bool.or_eq_false_iff] at he
    intro p hp
    rcases List.mem_append.1 hp with hp | hp
    · exact hasEmptyTuple_of_mem_arrays type hv he.1 p hp
    · exact hasEmptyTuple_of_mem_fieldArrays types hs he.2 p hp

end

mutual

/-- A type that weighs nothing has a value that takes no bytes. -/
theorem exists_weightless (type : Descriptor) (h : type.shape.weight = 0) :
    ∃ v, HasType type v ∧ Weightless type.shape v.datum := by
  cases type with
  | tuple fields =>
    rw [Descriptor.shape, Shape.weight] at h
    split at h
    · cases h
    · rename_i hd
      obtain ⟨values, ht, hw⟩ := exists_allWeightless fields h
      exact ⟨.tuple values, .tuple ht, hw.tuple (Bool.not_eq_true _ ▸ hd)⟩
  | fixedArray size element =>
    rw [Descriptor.shape, Shape.weight] at h
    split at h
    · cases h
    · rename_i hd
      rw [Bool.not_eq_true] at hd
      rcases Nat.mul_eq_zero.1 h with rfl | he
      · have hn : AllWeightless (List.replicate 0 element.shape) [] := .nil
        exact ⟨.fixedArray [], .fixedArray rfl (List.forall_mem_nil _), hn.fixedArray hd⟩
      · obtain ⟨v, hv, hw⟩ := exists_weightless element he
        have hm : (Value.fixedArray (List.replicate size v)).datum =
            .fixedArray (List.replicate size v.datum) := by
          rw [Value.datum, Value.elementData_eq, List.map_replicate]
        refine ⟨.fixedArray (List.replicate size v),
          .fixedArray List.length_replicate fun w hw => (List.mem_replicate.1 hw).2 ▸ hv, ?_⟩
        rw [hm]
        exact (hw.replicate size).fixedArray hd
  | _ => cases h

theorem exists_allWeightless (fields : List Declaration)
    (h : Shape.allWeight (Descriptor.shapes fields) = 0) :
    ∃ values, HaveTypes fields values ∧
      AllWeightless (Descriptor.shapes fields) (Value.fieldData values) := by
  cases fields with
  | nil => exact ⟨[], .nil, .nil⟩
  | cons field fields =>
    obtain ⟨name, type⟩ := field
    rw [Descriptor.shapes, Shape.allWeight, Nat.add_eq_zero_iff] at h
    obtain ⟨v, hv, hw⟩ := exists_weightless type h.1
    obtain ⟨values, hs, hx⟩ := exists_allWeightless fields h.2
    exact ⟨⟨name, v⟩ :: values, .cons hv hs, .cons hw hx⟩

end

namespace Codec

theorem decodeValues_weightless {element : Descriptor} (hw : element.shape.weight = 0)
    (he : element.hasEmptyTuple = false) {count : Nat} (hc : count < 2 ^ 32) (strict : Bool) :
    ∃ elements, elements.length = count ∧
      decodeValues { strict } [.array element] (sizeWord 32 ++ sizeWord count) =
        .ok [.array elements] := by
  obtain ⟨v, hv, hn⟩ := exists_weightless element hw
  have hx := hn.replicate count
  refine ⟨List.replicate count v, List.length_replicate, ?_⟩
  have ht : List.Forall₂ HasType [.array element] [Value.array (List.replicate count v)] :=
    .cons (.array fun w hw => (List.mem_replicate.1 hw).2 ▸ hv) .nil
  have hm : [Value.array (List.replicate count v)].map Value.datum =
      [.array (List.replicate count v.datum)] := by
    rw [List.map_singleton, Value.datum, Value.elementData_eq, List.map_replicate]
  have hd : encode [.array (List.replicate count v.datum)] = sizeWord 32 ++ sizeWord count := by
    rw [encode, Datum.parts, Datum.parts, Datum.body, hx.frame_eq_nil, List.length_replicate]
    simp [frame, heads, headsSize, Part.headSize, Part.tail, Datum.isDynamic]
  have ho : readSize? (sizeWord 32 ++ sizeWord count) 0 = some 32 :=
    readSize?_of_hasAt (Bytes.hasAt_self _).left (by decide)
  have hl : readSize? (sizeWord 32 ++ sizeWord count) 32 = some count := by
    have ha := (Bytes.hasAt_self (sizeWord 32 ++ sizeWord count)).right
    rw [sizeWord_length] at ha
    exact readSize?_of_hasAt ha hc
  have hr : ReadsAll [.array element.shape] (sizeWord 32 ++ sizeWord count) 0
      [.array (List.replicate count v.datum)] 32 := .cons (.array ho hl (hx.1 _ 0)) .nil
  rw [← hd, ← hm, decodeValues_encode_iff ht, hm, hd]
  refine ⟨List.forall_mem_singleton.2 he, ?_⟩
  have hs : (sizeWord 32 ++ sizeWord count).isEmpty = false := rfl
  rw [decode, hs]
  simp only [Bool.false_and, Bool.false_eq_true, if_false, List.map_singleton, Descriptor.shape,
    hr.readAll]

theorem forall₂_metered {limit : Nat} {types : List Descriptor} {values : List Value}
    (ht : List.Forall₂ HasType types values)
    (hm : Shape.AllMetered limit (types.map Descriptor.shape) (values.map Value.datum)) :
    List.Forall₂ (fun type value => HasType type value ∧
      type.shape.Metered limit value.datum) types values := by
  induction ht with
  | nil => exact .nil
  | cons h _ ih => exact .cons ⟨h, hm.1⟩ (ih hm.2)

theorem decodeValues_metered {policy : Policy} {types : List Descriptor} {data : Bytes}
    {values : List Value} (h : decodeValues policy types data = .ok values) :
    List.Forall₂ (fun type value => HasType type value ∧
      type.shape.Metered (data.length / 32) value.datum) types values := by
  obtain ⟨-, hd, -, ht⟩ := decodeValues_eq_ok_iff.1 h
  exact forall₂_metered ht (decode_metered hd)

/-- A payload of `n` bytes cannot claim an array of more than `n / 32` elements, whatever it is
    decoded to, exactly when an element weighs anything or holds an empty tuple, which is refused. -/
theorem decodeValues_arrays (element : Descriptor) :
    (∀ (policy : Policy) (types : List Descriptor) (data : Bytes) (values : List Value),
      decodeValues policy types data = .ok values →
      List.Forall₂ (fun type value => HasType type value ∧ ∀ elements,
        (element, elements) ∈ value.arrays type → elements.length ≤ data.length / 32)
        types values) ↔
      element.shape.weight ≠ 0 ∨ element.hasEmptyTuple = true := by
  constructor
  · intro h
    by_contra hn
    rw [not_or, not_not, Bool.not_eq_true] at hn
    obtain ⟨elements, hl, hd⟩ := decodeValues_weightless hn.1 hn.2 (show 3 < 2 ^ 32 by decide) false
    cases h _ _ _ _ hd with
    | cons hb _ =>
      have hle := hb.2 elements (List.mem_cons_self ..)
      rw [hl, List.length_append, sizeWord_length, sizeWord_length] at hle
      omega
  · intro hx policy types data values h
    obtain ⟨-, he⟩ := accept_eq_ok_iff.1 (decodeValues_eq_ok_iff.1 h).1
    refine ((List.forall₂_and_left _ _).2 ⟨he, decodeValues_metered h⟩).imp fun type value hy => ?_
    obtain ⟨hn, ht, hm⟩ := hy
    refine ⟨ht, fun elements hp => ?_⟩
    rcases hx with hw | hf
    · exact Nat.le_trans (Nat.le_mul_of_pos_right _ (Nat.pos_of_ne_zero hw))
        (arrays_le type ht hm (element, elements) hp)
    · cases hf.symm.trans (hasEmptyTuple_of_mem_arrays type ht hn (element, elements) hp)

theorem decodeValues_arrays_nested :
    decodeValues {} [.array (.array .bool)] (encode [.array [.array [.bool true], .array []]]) =
        .ok [.array [.array [.bool true], .array []]] ∧
      ∀ elements, (.array .bool, elements) ∈
        (Value.array [.array [.bool true], .array []]).arrays (.array (.array .bool)) →
          elements.length ≤ 7 := by
  have hd : decodeValues {} [.array (.array .bool)]
      (encode [.array [.array [.bool true], .array []]]) =
        .ok [.array [.array [.bool true], .array []]] := by cbv
  have hl : (encode [.array [.array [.bool true], .array []]]).length / 32 = 7 := by decide +kernel
  refine ⟨hd, ?_⟩
  cases (decodeValues_arrays (.array .bool)).2 (.inl Nat.one_ne_zero) _ _ _ _ hd with
  | cons h _ =>
    rw [hl] at h
    exact h.2

/-- A growing sequence of arrays of size zero: a payload of 64 bytes holds three of them. -/
theorem not_decodeValues_arrays :
    (HostType.sequence .growing (.sequence (.fixed 0) (.scalar .bool))).descriptor =
        .array (.fixedArray 0 .bool) ∧
      decodeValues {} [.array (.fixedArray 0 .bool)] (sizeWord 32 ++ sizeWord 3) =
        .ok [.array [.fixedArray [], .fixedArray [], .fixedArray []]] ∧
      ¬ [Value.fixedArray [], .fixedArray [], .fixedArray []].length ≤
        (sizeWord 32 ++ sizeWord 3).length / 32 :=
  ⟨rfl, rfl, by decide⟩

end Codec

end Attest
