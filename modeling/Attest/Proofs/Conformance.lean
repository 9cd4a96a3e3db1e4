import Attest.Proofs.Typing

set_option autoImplicit false

namespace Attest

namespace Abi.Shape

mutual

def InRange : Shape → Datum → Prop
  | .uint bits, .uint value => value.toNat < 2 ^ bits
  | .tuple shapes, .tuple members => AllInRange shapes members
  | .fixedArray _ element, .fixedArray elements => ∀ d ∈ elements, element.InRange d
  | .array element, .array elements => ∀ d ∈ elements, element.InRange d
  | _, _ => True

def AllInRange : List Shape → List Datum → Prop
  | shape :: shapes, datum :: data => shape.InRange datum ∧ AllInRange shapes data
  | _, _ => True

end

end Abi.Shape

open Abi

namespace Descriptor

theorem shapes_eq_map (fields : List Declaration) :
    shapes fields = (fields.map Named.item).map shape := by
  induction fields with
  | nil => rfl
  | cons field fields ih => rw [shapes, ih, List.map_cons, List.map_cons]

theorem shapes_length (fields : List Declaration) : (shapes fields).length = fields.length := by
  rw [shapes_eq_map, List.length_map, List.length_map]

mutual

theorem isDynamic_shape (type : Descriptor) : type.shape.isDynamic = type.isDynamic := by
  cases type with
  | tuple fields => exact anyDynamic_shapes fields
  | fixedArray size element => exact isDynamic_shape element
  | _ => rfl

theorem anyDynamic_shapes (fields : List Declaration) :
    Shape.anyDynamic (shapes fields) = anyDynamic fields := by
  cases fields with
  | nil => rfl
  | cons field fields =>
    rw [shapes, Shape.anyDynamic, anyDynamic, isDynamic_shape field.item, anyDynamic_shapes fields]

end

end Descriptor

theorem checkElements_eq_ok {check : Value → Result Unit} {position : Nat} {values : List Value} :
    Value.checkElements check position values = .ok () ↔ ∀ v ∈ values, check v = .ok () := by
  induction values generalizing position with
  | nil => simp [Value.checkElements]
  | cons v values ih =>
    rw [Value.checkElements, Result.bind_eq_ok, List.forall_mem_cons]
    simp only [Result.within_eq_ok, ih]
    constructor
    · intro h
      obtain ⟨⟨⟩, hv, hs⟩ := h
      exact ⟨hv, hs⟩
    · intro h
      obtain ⟨hv, hs⟩ := h
      exact ⟨(), hv, hs⟩

theorem elements_iff {element : Descriptor} {check : Value → Result Unit} {values : List Value}
    (he : ∀ v, check v = .ok () ↔ Admits element.shape v.datum ∧ element.shape.InRange v.datum) :
    (∀ v ∈ values, check v = .ok ()) ↔
      (∀ d ∈ Value.elementData values, Admits element.shape d) ∧
        ∀ d ∈ Value.elementData values, element.shape.InRange d := by
  rw [Value.elementData_eq, List.forall_mem_map, List.forall_mem_map]
  simp only [he]
  exact ⟨fun h => ⟨fun v hv => (h v hv).1, fun v hv => (h v hv).2⟩,
    fun h v hv => ⟨h.1 v hv, h.2 v hv⟩⟩

mutual

theorem check_eq_ok_iff (type : Descriptor) (value : Value) :
    value.check type = .ok () ↔
      Admits type.shape value.datum ∧ type.shape.InRange value.datum := by
  cases type with
  | address =>
    cases value with
    | address a => exact ⟨fun _ => ⟨.address a, trivial⟩, fun _ => rfl⟩
    | _ => exact ⟨nofun, fun h => nomatch h.1⟩
  | bool =>
    cases value with
    | bool b => exact ⟨fun _ => ⟨.bool b, trivial⟩, fun _ => rfl⟩
    | _ => exact ⟨nofun, fun h => nomatch h.1⟩
  | string =>
    cases value with
    | string text => exact ⟨fun _ => ⟨.string text, trivial⟩, fun _ => rfl⟩
    | _ => exact ⟨nofun, fun h => nomatch h.1⟩
  | bytes =>
    cases value with
    | bytes data => exact ⟨fun _ => ⟨.bytes data, trivial⟩, fun _ => rfl⟩
    | _ => exact ⟨nofun, fun h => nomatch h.1⟩
  | uint256 =>
    cases value with
    | uint n => exact ⟨fun _ => ⟨.uint 256 n, n.isLt⟩, fun _ => rfl⟩
    | _ => exact ⟨nofun, fun h => nomatch h.1⟩
  | uint width =>
    cases value with
    | uint n =>
      rw [Value.check, Nat.one_shiftLeft]
      by_cases hn : n.toNat < 2 ^ width.bits
      · rw [if_pos hn]
        exact ⟨fun _ => ⟨.uint width.bits n, hn⟩, fun _ => rfl⟩
      · rw [if_neg hn]
        exact ⟨nofun, fun h => absurd h.2 hn⟩
    | _ => exact ⟨nofun, fun h => nomatch h.1⟩
  | fixedBytes size =>
    cases value with
    | fixedBytes data =>
      rw [Value.check]
      by_cases hl : data.length = size
      · rw [if_pos hl]
        exact ⟨fun _ => ⟨.fixedBytes hl, trivial⟩, fun _ => rfl⟩
      · rw [if_neg hl]
        refine ⟨nofun, fun h => ?_⟩
        cases h.1 with
        | fixedBytes h => exact absurd h hl
    | _ => exact ⟨nofun, fun h => nomatch h.1⟩
  | tuple types =>
    cases value with
    | tuple fields =>
      rw [Value.check]
      by_cases hl : fields.length = types.length
      · rw [if_pos hl, checkFields_eq_ok_iff types hl]
        refine ⟨fun h => ⟨.tuple h.1, h.2⟩, fun h => ?_⟩
        cases h.1 with
        | tuple ha => exact ⟨ha, h.2⟩
      · rw [if_neg hl]
        refine ⟨nofun, fun h => ?_⟩
        cases h.1 with
        | tuple ha =>
          have hm := ha.length_eq
          rw [Value.fieldData_length, Descriptor.shapes_length] at hm
          exact absurd hm hl
    | _ => exact ⟨nofun, fun h => nomatch h.1⟩
  | fixedArray size element =>
    cases value with
    | fixedArray values =>
      rw [Value.check]
      by_cases hl : values.length = size
      · rw [if_pos hl, checkElements_eq_ok, elements_iff (check_eq_ok_iff element)]
        have hm : (Value.elementData values).length = size := by
          rw [Value.elementData_eq, List.length_map, hl]
        refine ⟨fun h => ⟨.fixedArray (admitsAll_replicate_iff.2 ⟨hm, h.1⟩), h.2⟩, fun h => ?_⟩
        cases h.1 with
        | fixedArray ha => exact ⟨(admitsAll_replicate_iff.1 ha).2, h.2⟩
      · rw [if_neg hl]
        refine ⟨nofun, fun h => ?_⟩
        cases h.1 with
        | fixedArray ha =>
          have hm := (admitsAll_replicate_iff.1 ha).1
          rw [Value.elementData_eq, List.length_map] at hm
          exact absurd hm hl
    | _ => exact ⟨nofun, fun h => nomatch h.1⟩
  | array element =>
    cases value with
    | array values =>
      rw [Value.check, checkElements_eq_ok, elements_iff (check_eq_ok_iff element)]
      refine ⟨fun h => ⟨.array (admitsAll_replicate_iff.2 ⟨rfl, h.1⟩), h.2⟩, fun h => ?_⟩
      cases h.1 with
      | array ha => exact ⟨(admitsAll_replicate_iff.1 ha).2, h.2⟩
    | _ => exact ⟨nofun, fun h => nomatch h.1⟩

theorem checkFields_eq_ok_iff (types : List Declaration) {fields : List (Named Value)}
    (hl : fields.length = types.length) :
    Value.checkFields types fields = .ok () ↔
      AdmitsAll (Descriptor.shapes types) (Value.fieldData fields) ∧
        Shape.AllInRange (Descriptor.shapes types) (Value.fieldData fields) := by
  cases types with
  | nil =>
    rw [List.eq_nil_of_length_eq_zero hl]
    exact ⟨fun _ => ⟨.nil, trivial⟩, fun _ => rfl⟩
  | cons declaration types =>
    obtain ⟨name, type⟩ := declaration
    cases fields with
    | nil => simp at hl
    | cons field fields =>
      have hm : fields.length = types.length := by simpa using hl
      rw [Value.checkFields]
      simp only [Result.bind_eq_ok, Result.within_eq_ok, check_eq_ok_iff type,
        checkFields_eq_ok_iff types hm]
      constructor
      · intro hx
        obtain ⟨⟨⟩, ⟨ha, hr⟩, has, hrs⟩ := hx
        exact ⟨.cons ha has, hr, hrs⟩
      · intro hx
        obtain ⟨h, hr, hrs⟩ := hx
        cases h with
        | cons ha has => exact ⟨(), ⟨ha, hr⟩, has, hrs⟩

end

mutual

theorem HasType.admits {type : Descriptor} {value : Value} (h : HasType type value) :
    Admits type.shape value.datum := by
  cases h with
  | address a => exact .address a
  | bool b => exact .bool b
  | string text => exact .string text
  | fixedBytes h => exact .fixedBytes h
  | bytes data => exact .bytes data
  | uint width n => exact .uint width.bits n
  | uint256 n => exact .uint 256 n
  | tuple h => exact .tuple h.admitsAll
  | @fixedArray size element values hl h =>
    rw [Descriptor.shape, Value.datum, Value.elementData_eq]
    refine .fixedArray (admitsAll_replicate_iff.2 ⟨by rw [List.length_map, hl], ?_⟩)
    rw [List.forall_mem_map]
    exact fun v hv => (h v hv).admits
  | @array element values h =>
    rw [Descriptor.shape, Value.datum, Value.elementData_eq]
    refine .array (admitsAll_replicate_iff.2 ⟨rfl, ?_⟩)
    rw [List.forall_mem_map]
    exact fun v hv => (h v hv).admits

theorem HaveTypes.admitsAll {types : List Declaration} {fields : List (Named Value)}
    (h : HaveTypes types fields) :
    AdmitsAll (Descriptor.shapes types) (Value.fieldData fields) := by
  cases h with
  | nil => exact .nil
  | cons h hs => exact .cons h.admits hs.admitsAll

end

theorem HasType.check_eq_ok_iff {type : Descriptor} {value : Value} (h : HasType type value) :
    value.check type = .ok () ↔ type.shape.InRange value.datum := by
  rw [Attest.check_eq_ok_iff]
  exact ⟨fun hc => hc.2, fun hr => ⟨h.admits, hr⟩⟩

namespace Value

mutual

/-- A value with the names of a type on its tuple fields, at every depth. -/
def renamed : Descriptor → Value → Value
  | .tuple types, .tuple fields => .tuple (renamedFields types fields)
  | .fixedArray _ element, .fixedArray values => .fixedArray (values.map (renamed element))
  | .array element, .array values => .array (values.map (renamed element))
  | _, value => value

def renamedFields : List Declaration → List (Named Value) → List (Named Value)
  | ⟨name, type⟩ :: types, ⟨_, value⟩ :: fields =>
    ⟨name, value.renamed type⟩ :: renamedFields types fields
  | _, _ => []

end

end Value

theorem elements_renamed {element : Descriptor} {values : List Value}
    (h : ∀ v ∈ values, HasType element (v.renamed element) ∧
      (v.renamed element).datum = v.datum) :
    (∀ v ∈ values.map (Value.renamed element), HasType element v) ∧
      Value.elementData (values.map (Value.renamed element)) = Value.elementData values := by
  rw [List.forall_mem_map, Value.elementData_eq, Value.elementData_eq, List.map_map]
  exact ⟨fun v hv => (h v hv).1, List.map_congr_left fun v hv => (h v hv).2⟩

mutual

theorem hasType_renamed (type : Descriptor) {value : Value}
    (h : Admits type.shape value.datum) :
    HasType type (value.renamed type) ∧ (value.renamed type).datum = value.datum := by
  cases type with
  | tuple types =>
    cases value with
    | tuple fields =>
      cases h with
      | tuple h =>
        obtain ⟨ht, hd⟩ := haveTypes_renamedFields types h
        exact ⟨.tuple ht, congrArg Datum.tuple hd⟩
    | _ => cases h
  | fixedArray size element =>
    cases value with
    | fixedArray values =>
      cases h with
      | fixedArray h =>
        obtain ⟨hl, ha⟩ := admitsAll_replicate_iff.1 h
        rw [Value.elementData_eq, List.forall_mem_map] at ha
        rw [Value.elementData_eq, List.length_map] at hl
        obtain ⟨ht, hd⟩ := elements_renamed fun v hv => hasType_renamed element (ha v hv)
        exact ⟨.fixedArray (by rw [List.length_map, hl]) ht, congrArg Datum.fixedArray hd⟩
    | _ => cases h
  | array element =>
    cases value with
    | array values =>
      cases h with
      | array h =>
        have ha := (admitsAll_replicate_iff.1 h).2
        rw [Value.elementData_eq, List.forall_mem_map] at ha
        obtain ⟨ht, hd⟩ := elements_renamed fun v hv => hasType_renamed element (ha v hv)
        exact ⟨.array ht, congrArg Datum.array hd⟩
    | _ => cases h
  | fixedBytes size =>
    cases value with
    | fixedBytes data =>
      cases h with
      | fixedBytes h => exact ⟨.fixedBytes h, rfl⟩
    | _ => cases h
  | address =>
    cases value with
    | address a => exact ⟨.address a, rfl⟩
    | _ => cases h
  | bool =>
    cases value with
    | bool b => exact ⟨.bool b, rfl⟩
    | _ => cases h
  | string =>
    cases value with
    | string text => exact ⟨.string text, rfl⟩
    | _ => cases h
  | bytes =>
    cases value with
    | bytes data => exact ⟨.bytes data, rfl⟩
    | _ => cases h
  | uint width =>
    cases value with
    | uint n => exact ⟨.uint width n, rfl⟩
    | _ => cases h
  | uint256 =>
    cases value with
    | uint n => exact ⟨.uint256 n, rfl⟩
    | _ => cases h

theorem haveTypes_renamedFields (types : List Declaration) {fields : List (Named Value)}
    (h : AdmitsAll (Descriptor.shapes types) (Value.fieldData fields)) :
    HaveTypes types (Value.renamedFields types fields) ∧
      Value.fieldData (Value.renamedFields types fields) = Value.fieldData fields := by
  cases types with
  | nil =>
    cases fields with
    | nil => exact ⟨.nil, rfl⟩
    | cons field fields => cases h
  | cons declaration types =>
    obtain ⟨name, type⟩ := declaration
    cases fields with
    | nil => cases h
    | cons field fields =>
      cases h with
      | cons h hs =>
        obtain ⟨ht, hd⟩ := hasType_renamed type h
        obtain ⟨hts, hds⟩ := haveTypes_renamedFields types hs
        refine ⟨.cons ht hts, ?_⟩
        rw [Value.renamedFields, Value.fieldData, Value.fieldData, hd, hds]

end

end Attest
