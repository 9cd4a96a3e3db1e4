import Attest.Proofs.Fields

set_option autoImplicit false

/-!
# Where a value does not fit

The check of a value against a type goes from the outside in, and in the order of fields and
elements. It fails exactly if the value does not fit, and leads to the first place where it does not:
to a part that is wrong by its kind, width, size or count, with nothing wrong in front of it.
-/
namespace Attest

open Abi

namespace Descriptor

/-- Whether a value can be encoded as the type: it is laid out as the type is, whatever the names of
    its fields, and its numbers are in range. -/
def Fits (type : Descriptor) (value : Value) : Prop :=
  Admits type.shape value.datum ∧ type.shape.InRange value.datum

/-- Whether values of the type are of a kind, up to sizes and counts. -/
def describes : Descriptor → Kind → Bool
  | .address, .address | .bool, .bool | .string, .string | .bytes, .bytes | .array _, .array => true
  | .fixedBytes _, .fixedBytes _ => true
  | .uint _, .uint | .uint256, .uint => true
  | .tuple _, .tuple _ => true
  | .fixedArray _ _, .fixedArray _ => true
  | _, _ => false

end Descriptor

/-- Why a value is wrong for a type at its own top level. -/
inductive Misfit : Descriptor → Value → Reason → Prop
  | kind {type : Descriptor} {value : Value} (h : type.describes value.kind = false) :
    Misfit type value (.kind (.ofType type) value.kind)
  | overflow {width : UintWidth} {n : Word} (h : 2 ^ width.bits ≤ n.toNat) :
    Misfit (.uint width) (.uint n) (.overflow n width)
  | byteCount {size : Nat} {data : Bytes} (h : data.length ≠ size) :
    Misfit (.fixedBytes size) (.fixedBytes data) (.byteCount size data.length)
  | fieldCount {types : List Declaration} {fields : List (Named Value)}
    (h : fields.length ≠ types.length) :
    Misfit (.tuple types) (.tuple fields) (.fieldCount types.length fields.length)
  | elementCount {size : Nat} {element : Descriptor} {values : List Value}
    (h : values.length ≠ size) :
    Misfit (.fixedArray size element) (.fixedArray values) (.elementCount size values.length)

/-- Whether a path leads to the first part of a value that is wrong for the type at its own top level,
    and why it is. Counts are right along the path, and all fields and elements in front of it fit. -/
inductive FirstMisfit : Descriptor → Value → Path → Reason → Prop
  | here {type : Descriptor} {value : Value} {reason : Reason} (h : Misfit type value reason) :
    FirstMisfit type value [] reason
  | field {types : List Declaration} {fields : List (Named Value)} {d : Declaration}
    {f : Named Value} {front back : List (Declaration × Named Value)} {path : Path}
    {reason : Reason} (hl : fields.length = types.length)
    (hz : types.zip fields = front ++ (d, f) :: back) (hf : ∀ p ∈ front, p.1.item.Fits p.2.item)
    (h : FirstMisfit d.item f.item path reason) :
    FirstMisfit (.tuple types) (.tuple fields) (.field d.name :: path) reason
  | fixedElement {size : Nat} {element : Descriptor} {front back : List Value} {value : Value}
    {path : Path} {reason : Reason} (hl : (front ++ value :: back).length = size)
    (hf : ∀ v ∈ front, element.Fits v) (h : FirstMisfit element value path reason) :
    FirstMisfit (.fixedArray size element) (.fixedArray (front ++ value :: back))
      (.index front.length :: path) reason
  | element {element : Descriptor} {front back : List Value} {value : Value} {path : Path}
    {reason : Reason} (hf : ∀ v ∈ front, element.Fits v)
    (h : FirstMisfit element value path reason) :
    FirstMisfit (.array element) (.array (front ++ value :: back)) (.index front.length :: path)
      reason

theorem Descriptor.fits_iff {type : Descriptor} {value : Value} :
    type.Fits value ↔ ∃ done, value.check type = .ok done := by
  rw [Fits, ← check_eq_ok_iff]
  exact ⟨fun h => ⟨(), h⟩, fun ⟨(), h⟩ => h⟩

section Lists

variable {failure : Failure}

theorem checkElements_eq_error_iff {element : Descriptor} {values : List Value} :
    Value.checkElements (Value.check element) 0 values = .error failure ↔
      ∃ front value back cause, values = front ++ value :: back ∧
        (∀ v ∈ front, element.Fits v) ∧ value.check element = .error cause ∧
        failure = cause.within (.index front.length) := by
  rw [Result.checkElements_eq, Result.map_eq_error, Result.sequence_eq_error_iff]
  simp only [Nat.zero_add, Descriptor.fits_iff]

theorem checkFields_eq (types : List Declaration) (fields : List (Named Value)) (position : Nat) :
    Value.checkFields types fields =
      (Result.sequence (fun _ p => .field p.1.name) (fun p => p.2.item.check p.1.item) position
        (types.zip fields)).map fun _ => () := by
  induction types generalizing fields position with
  | nil => rfl
  | cons d types ih =>
    cases fields with
    | nil => rfl
    | cons f fields =>
      rw [Value.checkFields, ih fields (position + 1), List.zip_cons_cons, Result.sequence]
      cases Result.within (.field d.name) (f.item.check d.item) with
      | error failure => rfl
      | ok _ =>
        cases Result.sequence (fun _ p => .field p.1.name) (fun p => p.2.item.check p.1.item)
          (position + 1) (types.zip fields) <;> rfl

theorem checkFields_eq_error_iff {types : List Declaration} {fields : List (Named Value)} :
    Value.checkFields types fields = .error failure ↔
      ∃ front d f back cause, types.zip fields = front ++ (d, f) :: back ∧
        (∀ p ∈ front, p.1.item.Fits p.2.item) ∧ f.item.check d.item = .error cause ∧
        failure = cause.within (.field d.name) := by
  rw [checkFields_eq types fields 0, Result.map_eq_error, Result.sequence_eq_error_iff]
  simp only [Descriptor.fits_iff, Prod.exists]

end Lists

theorem check_of_describes_eq_false {type : Descriptor} {value : Value}
    (h : type.describes value.kind = false) :
    value.check type = .error (.encoding [] (.kind (.ofType type) value.kind)) := by
  cases type <;> cases value <;> first | rfl | cases h

theorem Misfit.check_eq {type : Descriptor} {value : Value} {reason : Reason}
    (h : Misfit type value reason) : value.check type = .error (.encoding [] reason) := by
  cases h with
  | kind h => exact check_of_describes_eq_false h
  | overflow h => rw [Value.check, Nat.one_shiftLeft, if_neg (Nat.not_lt.2 h)]
  | byteCount h => rw [Value.check, if_neg h]
  | fieldCount h => rw [Value.check, if_neg h]
  | elementCount h => rw [Value.check, if_neg h]

theorem FirstMisfit.check_eq {type : Descriptor} {value : Value} {path : Path} {reason : Reason}
    (h : FirstMisfit type value path reason) :
    value.check type = .error (.encoding path reason) := by
  induction h with
  | here h => exact h.check_eq
  | field hl hz hf _ ih =>
    rw [Value.check, if_pos hl, checkFields_eq_error_iff]
    exact ⟨_, _, _, _, _, hz, hf, ih, rfl⟩
  | fixedElement hl hf _ ih =>
    rw [Value.check, if_pos hl, checkElements_eq_error_iff]
    exact ⟨_, _, _, _, rfl, hf, ih, rfl⟩
  | element hf _ ih =>
    rw [Value.check, checkElements_eq_error_iff]
    exact ⟨_, _, _, _, rfl, hf, ih, rfl⟩

mutual

/-- A failed check has gone to a part that is wrong, and has found everything in front of it right. -/
theorem exists_firstMisfit (type : Descriptor) {value : Value} {failure : Failure}
    (h : value.check type = .error failure) :
    ∃ path reason, failure = .encoding path reason ∧ FirstMisfit type value path reason := by
  by_cases hk : type.describes value.kind = true
  · cases type with
    | uint width =>
      cases value with
      | uint n =>
        rw [Value.check, Nat.one_shiftLeft] at h
        split at h
        · cases h
        · rename_i hn
          cases h
          exact ⟨_, _, rfl, .here (.overflow (Nat.not_lt.1 hn))⟩
      | _ => cases hk
    | fixedBytes size =>
      cases value with
      | fixedBytes data =>
        rw [Value.check] at h
        split at h
        · cases h
        · rename_i hl
          cases h
          exact ⟨_, _, rfl, .here (.byteCount hl)⟩
      | _ => cases hk
    | tuple types =>
      cases value with
      | tuple fields =>
        rw [Value.check] at h
        split at h
        · rename_i hl
          obtain ⟨front, d, f, back, cause, hz, hf, hc, rfl⟩ := checkFields_eq_error_iff.1 h
          have hp : (d, f) ∈ types.zip fields := by rw [hz]; simp
          have hd : d ∈ types := (List.of_mem_zip hp).1
          obtain ⟨path, reason, rfl, hm⟩ := exists_firstMisfit_of_mem types d hd hc
          exact ⟨_, _, rfl, .field hl hz hf hm⟩
        · rename_i hl
          cases h
          exact ⟨_, _, rfl, .here (.fieldCount hl)⟩
      | _ => cases hk
    | fixedArray size element =>
      cases value with
      | fixedArray values =>
        rw [Value.check] at h
        split at h
        · rename_i hl
          obtain ⟨front, v, back, cause, rfl, hf, hc, rfl⟩ := checkElements_eq_error_iff.1 h
          obtain ⟨path, reason, rfl, hm⟩ := exists_firstMisfit element hc
          exact ⟨_, _, rfl, .fixedElement hl hf hm⟩
        · rename_i hl
          cases h
          exact ⟨_, _, rfl, .here (.elementCount hl)⟩
      | _ => cases hk
    | array element =>
      cases value with
      | array values =>
        rw [Value.check] at h
        obtain ⟨front, v, back, cause, rfl, hf, hc, rfl⟩ := checkElements_eq_error_iff.1 h
        obtain ⟨path, reason, rfl, hm⟩ := exists_firstMisfit element hc
        exact ⟨_, _, rfl, .element hf hm⟩
      | _ => cases hk
    | _ => cases value <;> cases h <;> cases hk
  · rw [Bool.not_eq_true] at hk
    rw [check_of_describes_eq_false hk] at h
    cases h
    exact ⟨_, _, rfl, .here (.kind hk)⟩

theorem exists_firstMisfit_of_mem (types : List Declaration) :
    ∀ d ∈ types, ∀ {value : Value} {failure : Failure}, value.check d.item = .error failure →
      ∃ path reason, failure = .encoding path reason ∧ FirstMisfit d.item value path reason := by
  cases types with
  | nil => nofun
  | cons d types =>
    rw [List.forall_mem_cons]
    exact ⟨fun h => exists_firstMisfit d.item h, exists_firstMisfit_of_mem types⟩

end

theorem check_eq_error_iff {type : Descriptor} {value : Value} {failure : Failure} :
    value.check type = .error failure ↔
      ∃ path reason, failure = .encoding path reason ∧ FirstMisfit type value path reason := by
  constructor
  · exact exists_firstMisfit type
  · rintro ⟨path, reason, rfl, h⟩
    exact h.check_eq

namespace Codec

theorem fits_iff_itemDatum {item : Item} :
    item.type.Fits item.value ↔ ∃ datum, itemDatum item = .ok datum := by
  simp only [itemDatum_eq_ok_iff, exists_and_left, exists_eq', and_true]
  exact (check_eq_ok_iff item.type item.value).symm

theorem exists_encodeItems_iff {items : List Item} :
    (∃ data, encodeItems items = .ok data) ↔ ∀ item ∈ items, item.type.Fits item.value := by
  simp only [encodeItems_eq_ok_iff, exists_and_left, exists_eq', and_true, check_eq_ok_iff]
  rfl

theorem itemDatum_eq_error_iff {item : Item} {failure : Failure} :
    itemDatum item = .error failure ↔ item.value.check item.type = .error failure := by
  rw [itemDatum]
  cases item.value.check item.type <;> simp [bind, Except.bind, pure, Except.pure]

/-- The check leads to the first part that does not fit its type; encoding items leads to the first
    item that does not fit, and from there to its part. -/
theorem encodeItems_firstMisfit :
    (∀ (type : Descriptor) (value : Value),
      ((∃ failure, value.check type = .error failure) ↔ ¬ type.Fits value) ∧
        ∀ failure, value.check type = .error failure ↔
          ∃ path reason, failure = .encoding path reason ∧ FirstMisfit type value path reason) ∧
      ∀ items : List Item,
        ((∃ failure, encodeItems items = .error failure) ↔
          ∃ item ∈ items, ¬ item.type.Fits item.value) ∧
        ∀ failure, encodeItems items = .error failure ↔
          ∃ front item back path reason, items = front ++ item :: back ∧
            (∀ i ∈ front, i.type.Fits i.value) ∧
            item.value.check item.type = .error (.encoding path reason) ∧
            failure = .encoding (.argument front.length :: path) reason := by
  refine ⟨fun type value => ⟨?_, fun failure => check_eq_error_iff⟩, fun items => ⟨?_, ?_⟩⟩
  · rw [Result.exists_error_iff, Descriptor.fits_iff]
  · rw [Result.exists_error_iff, exists_encodeItems_iff]
    simp only [not_forall, exists_prop]
  · intro failure
    rw [encodeItems, Result.map_eq_error, Result.collect_eq, Result.sequence_eq_error_iff]
    simp only [Nat.zero_add, ← fits_iff_itemDatum, itemDatum_eq_error_iff]
    constructor
    · rintro ⟨front, item, back, cause, hi, hf, hc, rfl⟩
      obtain ⟨path, reason, rfl, -⟩ := check_eq_error_iff.1 hc
      exact ⟨front, item, back, path, reason, hi, hf, hc, rfl⟩
    · rintro ⟨front, item, back, path, reason, hi, hf, hc, rfl⟩
      exact ⟨front, item, back, _, hi, hf, hc, rfl⟩

/-- The count of elements is looked at in front of the elements. -/
example : Value.check (.array (.fixedArray 2 (.uint .w8)))
      (.array [.fixedArray [.uint 7, .uint 255], .fixedArray [.uint 300]]) =
    .error (.encoding [.index 1] (.elementCount 2 1)) := rfl

end Codec

end Attest
