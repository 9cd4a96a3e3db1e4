import Attest.Proofs.Abi.Layout
import Attest.Proofs.Result

set_option autoImplicit false

namespace Attest

mutual

/-- Whether a value is of a type, with the type's names on its fields. A number may be too wide. -/
inductive HasType : Descriptor → Value → Prop
  | address (a : Address) : HasType .address (.address a)
  | bool (b : Bool) : HasType .bool (.bool b)
  | string (text : String) : HasType .string (.string text)
  | fixedBytes {size : Nat} {data : Bytes} (h : data.length = size) :
    HasType (.fixedBytes size) (.fixedBytes data)
  | bytes (data : Bytes) : HasType .bytes (.bytes data)
  | uint (width : UintWidth) (n : Word) : HasType (.uint width) (.uint n)
  | uint256 (n : Word) : HasType .uint256 (.uint n)
  | tuple {types : List Declaration} {fields : List (Named Value)} (h : HaveTypes types fields) :
    HasType (.tuple types) (.tuple fields)
  | fixedArray {size : Nat} {element : Descriptor} {values : List Value}
    (hl : values.length = size) (h : ∀ v ∈ values, HasType element v) :
    HasType (.fixedArray size element) (.fixedArray values)
  | array {element : Descriptor} {values : List Value} (h : ∀ v ∈ values, HasType element v) :
    HasType (.array element) (.array values)

inductive HaveTypes : List Declaration → List (Named Value) → Prop
  | nil : HaveTypes [] []
  | cons {name : String} {type : Descriptor} {value : Value} {types : List Declaration}
    {fields : List (Named Value)} (h : HasType type value) (hs : HaveTypes types fields) :
    HaveTypes (⟨name, type⟩ :: types) (⟨name, value⟩ :: fields)

end

namespace Value

theorem elementData_eq (values : List Value) : elementData values = values.map datum := by
  induction values with
  | nil => rfl
  | cons v values ih => rw [elementData, ih, List.map_cons]

theorem fieldData_eq (fields : List (Named Value)) :
    fieldData fields = fields.map fun field => field.item.datum := by
  induction fields with
  | nil => rfl
  | cons field fields ih => rw [fieldData, ih, List.map_cons]

theorem fieldData_length (fields : List (Named Value)) :
    (fieldData fields).length = fields.length := by
  rw [fieldData_eq, List.length_map]

end Value

theorem HaveTypes.length_eq {types : List Declaration} {fields : List (Named Value)}
    (h : HaveTypes types fields) : fields.length = types.length := by
  induction fields generalizing types with
  | nil => cases h; rfl
  | cons field fields ih =>
    cases h with
    | cons _ hs => rw [List.length_cons, List.length_cons, ih hs]

theorem elements_ofDatum_iff {element : Descriptor} {data : List Abi.Datum} {values : List Value}
    (he : ∀ {d : Abi.Datum} {v : Value}, Value.ofDatum element d = .ok v ↔
      HasType element v ∧ v.datum = d) :
    data.mapM (Value.ofDatum element) = .ok values ↔
      (∀ v ∈ values, HasType element v) ∧ Value.elementData values = data := by
  rw [Result.mapM_eq_ok, Value.elementData_eq, ← forall₂_and_map_flip]
  simp only [he]

mutual

theorem ofDatum_eq_ok_iff (type : Descriptor) {datum : Abi.Datum} {value : Value} :
    Value.ofDatum type datum = .ok value ↔ HasType type value ∧ value.datum = datum := by
  constructor
  · intro h
    cases type with
    | tuple types =>
      cases datum with
      | tuple members =>
        rw [Value.ofDatum] at h
        split at h
        · rename_i hl
          obtain ⟨fields, hf, rfl⟩ := Result.map_eq_ok.1 h
          obtain ⟨ht, rfl⟩ := (ofMembers_eq_ok_iff types hl).1 hf
          exact ⟨.tuple ht, rfl⟩
        · cases h
      | _ => simp [Value.ofDatum] at h
    | fixedArray size element =>
      cases datum with
      | fixedArray elements =>
        rw [Value.ofDatum] at h
        split at h
        · rename_i hl
          obtain ⟨values, hv, rfl⟩ := Result.map_eq_ok.1 h
          obtain ⟨ht, rfl⟩ := (elements_ofDatum_iff (ofDatum_eq_ok_iff element)).1 hv
          rw [Value.elementData_eq, List.length_map] at hl
          exact ⟨.fixedArray hl ht, rfl⟩
        · cases h
      | _ => simp [Value.ofDatum] at h
    | array element =>
      cases datum with
      | array elements =>
        rw [Value.ofDatum] at h
        obtain ⟨values, hv, rfl⟩ := Result.map_eq_ok.1 h
        obtain ⟨ht, rfl⟩ := (elements_ofDatum_iff (ofDatum_eq_ok_iff element)).1 hv
        exact ⟨.array ht, rfl⟩
      | _ => simp [Value.ofDatum] at h
    | fixedBytes size =>
      cases datum with
      | fixedBytes data =>
        rw [Value.ofDatum] at h
        split at h
        · rename_i hl
          cases h
          exact ⟨.fixedBytes hl, rfl⟩
        · cases h
      | _ => simp [Value.ofDatum] at h
    | address =>
      cases datum with
      | address a => cases h; exact ⟨.address a, rfl⟩
      | _ => simp [Value.ofDatum] at h
    | bool =>
      cases datum with
      | bool b => cases h; exact ⟨.bool b, rfl⟩
      | _ => simp [Value.ofDatum] at h
    | string =>
      cases datum with
      | string text => cases h; exact ⟨.string text, rfl⟩
      | _ => simp [Value.ofDatum] at h
    | bytes =>
      cases datum with
      | bytes data => cases h; exact ⟨.bytes data, rfl⟩
      | _ => simp [Value.ofDatum] at h
    | uint width =>
      cases datum with
      | uint n => cases h; exact ⟨.uint width n, rfl⟩
      | _ => simp [Value.ofDatum] at h
    | uint256 =>
      cases datum with
      | uint n => cases h; exact ⟨.uint256 n, rfl⟩
      | _ => simp [Value.ofDatum] at h
  · intro hx
    obtain ⟨h, rfl⟩ := hx
    cases h with
    | @tuple types fields h =>
      have hl : (Value.fieldData fields).length = types.length := by
        rw [Value.fieldData_length, h.length_eq]
      rw [Value.datum, Value.ofDatum, if_pos hl]
      exact Result.map_eq_ok.2 ⟨fields, (ofMembers_eq_ok_iff types hl).2 ⟨h, rfl⟩, rfl⟩
    | @fixedArray size element values hl h =>
      have hn : (Value.elementData values).length = size := by
        rw [Value.elementData_eq, List.length_map, hl]
      have hv := (elements_ofDatum_iff (ofDatum_eq_ok_iff element)).2 ⟨h, rfl⟩
      rw [Value.datum, Value.ofDatum, if_pos hn]
      exact Result.map_eq_ok.2 ⟨values, hv, rfl⟩
    | @array element values h =>
      have hv := (elements_ofDatum_iff (ofDatum_eq_ok_iff element)).2 ⟨h, rfl⟩
      rw [Value.datum, Value.ofDatum]
      exact Result.map_eq_ok.2 ⟨values, hv, rfl⟩
    | fixedBytes h => rw [Value.datum, Value.ofDatum, if_pos h]
    | _ => rfl

theorem ofMembers_eq_ok_iff (types : List Declaration) {members : List Abi.Datum}
    {fields : List (Named Value)} (hl : members.length = types.length) :
    Value.ofMembers types members = .ok fields ↔
      HaveTypes types fields ∧ Value.fieldData fields = members := by
  cases types with
  | nil =>
    rw [List.eq_nil_of_length_eq_zero hl]
    constructor
    · intro h
      cases h
      exact ⟨.nil, rfl⟩
    · intro hx
      obtain ⟨h, -⟩ := hx
      cases h
      rfl
  | cons declaration types =>
    obtain ⟨name, type⟩ := declaration
    cases members with
    | nil => simp at hl
    | cons datum members =>
      have hm : members.length = types.length := by simpa using hl
      rw [Value.ofMembers]
      simp only [Result.bind_eq_ok, Result.pure_eq_ok, ofDatum_eq_ok_iff type,
        ofMembers_eq_ok_iff types hm]
      constructor
      · intro hx
        obtain ⟨value, ⟨hv, rfl⟩, rest, ⟨hr, rfl⟩, rfl⟩ := hx
        exact ⟨.cons hv hr, rfl⟩
      · intro hx
        obtain ⟨h, hd⟩ := hx
        cases h with
        | cons hv hr =>
          rw [Value.fieldData, List.cons.injEq] at hd
          exact ⟨_, ⟨hv, hd.1⟩, _, ⟨hr, hd.2⟩, rfl⟩

end

end Attest
