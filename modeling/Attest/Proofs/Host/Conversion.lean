import Attest.Proofs.Host.Scalar

set_option autoImplicit false

namespace Attest

namespace Extent

variable {α : Type} {extent : Extent}

theorem ofList?_eq_some_iff {items : List α} {whole : extent.Of α} :
    extent.ofList? items = some whole ↔ extent.toList whole = items := by
  cases extent with
  | growing => exact Option.some_inj.trans eq_comm
  | view => exact Option.some_inj.trans eq_comm
  | fixed size =>
    constructor
    · intro h
      by_cases hl : items.length = size
      · rw [show ofList? (.fixed size) items = some _ from dif_pos hl] at h
        cases h
        rfl
      · rw [show ofList? (.fixed size) items = none from dif_neg hl] at h
        cases h
    · rintro rfl
      exact dif_pos (Vector.length_toList)

theorem length_toList {size : Nat} {whole : extent.Of α} (h : extent.size? = some size) :
    (extent.toList whole).length = size := by
  cases extent with
  | fixed n =>
    cases h
    exact Vector.length_toList
  | _ => cases h

end Extent

namespace HostType

section Sequences

variable {element : HostType} {size : Nat}

theorem toBytes?_eq_none (h : element.isByte = false) (items : List element.Val) :
    element.toBytes? items = none := by
  unfold toBytes?
  split
  · cases h
  · rfl

theorem ofBytes?_eq_none (h : element.isByte = false) : element.ofBytes? = none := by
  unfold ofBytes?
  split
  · cases h
  · rfl

variable {encode : element.Val → Result Value} {decode : Value → Result element.Val}

theorem encodeSequence_growing (h : element.isByte = false) (items : List element.Val) :
    encodeSequence element encode none items =
      (convertElements encode 0 items).map .array := by
  unfold encodeSequence
  split
  · rename_i hb
    rw [toBytes?_eq_none h] at hb
    cases hb
  · contradiction
  · rfl
  · contradiction

theorem decodeSequence_growing (h : element.isByte = false) (value : Value) :
    decodeSequence element decode none value = decodeElements element decode none value := by
  unfold decodeSequence
  split
  · rename_i hb
    rw [ofBytes?_eq_none h] at hb
    cases hb
  · contradiction
  · rfl

theorem encodeSequence_fixed (h : ¬ (element.isByte = true ∧ size = 32))
    (items : List element.Val) :
    encodeSequence element encode (some size) items =
      (convertElements encode 0 items).map .fixedArray := by
  unfold encodeSequence
  split
  · contradiction
  · rename_i hs hb
    cases hs
    have hf : element.isByte = false := by simpa using h
    rw [toBytes?_eq_none hf] at hb
    cases hb
  · contradiction
  · rfl

theorem decodeSequence_fixed (h : ¬ (element.isByte = true ∧ size = 32)) (value : Value) :
    decodeSequence element decode (some size) value =
      decodeElements element decode (some size) value := by
  unfold decodeSequence
  split
  · contradiction
  · rename_i hs hb
    cases hs
    have hf : element.isByte = false := by simpa using h
    rw [ofBytes?_eq_none hf] at hb
    cases hb
  · rfl

theorem convertElements_iff {values : List Value} {items : List element.Val}
    (h : ∀ v ∈ values, ∀ x, decode v = .ok x ↔ encode x = .ok v) :
    convertElements decode 0 values = .ok items ↔ convertElements encode 0 items = .ok values := by
  rw [Result.convertElements_eq_ok, Result.convertElements_eq_ok]
  induction values generalizing items with
  | nil => rw [List.forall₂_nil_left_iff, List.forall₂_nil_right_iff]
  | cons v values ih =>
    rw [List.forall_mem_cons] at h
    rw [List.forall₂_cons_left_iff, List.forall₂_cons_right_iff]
    simp only [h.1, ih h.2]

theorem convertElements_sound {p : Value → Prop} {values : List Value} {items : List element.Val}
    (hc : ∀ x v, encode x = .ok v → p v) (h : convertElements encode 0 items = .ok values) :
    ∀ v ∈ values, p v := by
  rw [Result.convertElements_eq_ok] at h
  induction h with
  | nil => nofun
  | cons hv _ ih => exact List.forall_mem_cons.2 ⟨hc _ _ hv, ih⟩

theorem map_toBitVec_eq_iff {data : Bytes} {bits : List (BitVec 8)} :
    data.map UInt8.toBitVec = bits ↔ bits.map UInt8.ofBitVec = data := by
  constructor
  · rintro rfl
    rw [List.map_map]
    exact List.map_id data
  · rintro rfl
    rw [List.map_map]
    exact List.map_id bits

theorem bytes_eq_ok_iff {data : Bytes} {bits : List (BitVec 8)} :
    (.ok (data.map UInt8.toBitVec) : Result (List (BitVec 8))) = .ok bits ↔
      (.ok (.bytes (bits.map UInt8.ofBitVec)) : Result Value) = .ok (.bytes data) := by
  rw [Except.ok.injEq, Except.ok.injEq, Value.bytes.injEq, map_toBitVec_eq_iff]

theorem bytes32_eq_ok_iff {data : Bytes} {bits : List (BitVec 8)} (hl : data.length = 32) :
    (Scalar.decodeBytes32 (.fixedBytes data)).map (fun bytes => bytes.toList.map UInt8.toBitVec) =
        .ok bits ↔
      (.ok (.fixedBytes (bits.map UInt8.ofBitVec)) : Result Value) = .ok (.fixedBytes data) := by
  rw [Result.map_eq_ok, Except.ok.injEq, Value.fixedBytes.injEq]
  simp only [Scalar.decodeBytes32_eq_ok_iff, Except.ok.injEq, Value.fixedBytes.injEq,
    map_toBitVec_eq_iff]
  constructor
  · intro h
    obtain ⟨bytes, rfl, hb⟩ := h
    exact hb
  · intro hb
    have hv : (⟨data.toArray, by simpa using hl⟩ : Vector UInt8 32).toList = data := rfl
    exact ⟨_, hv, by rw [hv, hb]⟩

theorem decodeSequence_eq_ok_iff {size : Option Nat} {value : Value} {items : List element.Val}
    (hc : ∀ v, HasType element.descriptor v → ∀ x, decode v = .ok x ↔ encode x = .ok v)
    (h : HasType (sequenceDescriptor element.isByte element.descriptor size) value) :
    decodeSequence element decode size value = .ok items ↔
      encodeSequence element encode size items = .ok value := by
  cases size with
  | none =>
    by_cases hb : element.isByte = true
    · cases isByte_eq_true_iff.1 hb
      cases h with
      | bytes data => exact bytes_eq_ok_iff
    · rw [Bool.not_eq_true] at hb
      rw [sequenceDescriptor, hb] at h
      cases h with
      | @array _ values hv =>
        rw [decodeSequence_growing hb, encodeSequence_growing hb, decodeElements,
          convertElements_iff fun v hm => hc v (hv v hm), Result.map_eq_ok]
        simp
  | some size =>
    by_cases hb : element.isByte = true ∧ size = 32
    · obtain ⟨hb, rfl⟩ := hb
      cases isByte_eq_true_iff.1 hb
      cases h with
      | fixedBytes hl => exact bytes32_eq_ok_iff hl
    · rw [sequenceDescriptor, if_neg hb] at h
      cases h with
      | @fixedArray _ _ values hl hv =>
        rw [decodeSequence_fixed hb, encodeSequence_fixed hb, decodeElements, if_pos hl,
          convertElements_iff fun v hm => hc v (hv v hm), Result.map_eq_ok]
        simp

theorem encodeSequence_sound {size : Option Nat} {value : Value} {items : List element.Val}
    (hs : ∀ n, size = some n → items.length = n)
    (hc : ∀ x v, encode x = .ok v →
      HasType element.descriptor v ∧ element.descriptor.shape.InRange v.datum)
    (h : encodeSequence element encode size items = .ok value) :
    HasType (sequenceDescriptor element.isByte element.descriptor size) value ∧
      (sequenceDescriptor element.isByte element.descriptor size).shape.InRange value.datum := by
  cases size with
  | none =>
    by_cases hb : element.isByte = true
    · cases isByte_eq_true_iff.1 hb
      cases h
      exact ⟨.bytes _, trivial⟩
    · rw [Bool.not_eq_true] at hb
      rw [encodeSequence_growing hb, Result.map_eq_ok] at h
      obtain ⟨values, hv, rfl⟩ := h
      rw [sequenceDescriptor, hb]
      have ha := convertElements_sound hc hv
      refine ⟨.array fun v hm => (ha v hm).1, ?_⟩
      rw [Value.datum, Value.elementData_eq]
      exact List.forall_mem_map.2 fun v hm => (ha v hm).2
  | some size =>
    have hn := hs size rfl
    by_cases hb : element.isByte = true ∧ size = 32
    · obtain ⟨hb, rfl⟩ := hb
      cases isByte_eq_true_iff.1 hb
      cases h
      exact ⟨.fixedBytes ((List.length_map _).trans hn), trivial⟩
    · rw [encodeSequence_fixed hb, Result.map_eq_ok] at h
      obtain ⟨values, hv, rfl⟩ := h
      rw [sequenceDescriptor, if_neg hb]
      have ha := convertElements_sound hc hv
      have hl := (Result.convertElements_eq_ok.1 hv).length_eq
      refine ⟨.fixedArray (by rw [← hl, hn]) fun v hm => (ha v hm).1, ?_⟩
      rw [Value.datum, Value.elementData_eq]
      exact List.forall_mem_map.2 fun v hm => (ha v hm).2

end Sequences

section Members

variable {α β : Type} {value : Value} {result : Result α}

theorem map_some_eq_ok_iff {x : α} : result.map some = .ok (some x) ↔ result = .ok x := by
  rw [Result.map_eq_ok]
  simp

theorem map_some_ne_none : result.map some ≠ .ok none := by
  rw [ne_eq, Result.map_eq_ok]
  simp

theorem bind_eq_ok_iff_of_inverse {finish : α → Result β} {start : β → α}
    {encode : α → Result Value} (hf : ∀ a b, finish a = .ok b ↔ start b = a)
    (h : ∀ a, result = .ok a ↔ encode a = .ok value) (b : β) :
    (result >>= finish) = .ok b ↔ encode (start b) = .ok value := by
  rw [Result.bind_eq_ok, ← h]
  simp only [hf]
  exact ⟨fun ⟨_, ha, hb⟩ => hb ▸ ha, fun ha => ⟨_, ha, rfl⟩⟩

theorem extract?_cons (name : String) (value : Value) (rest : List (Named Value)) :
    TupleFields.extract? name ⟨⟨name, value⟩ :: rest⟩ = some (value, ⟨rest⟩) := by
  simp [TupleFields.extract?]

end Members

mutual

/-- A host value is decoded from a value of its descriptor exactly when it encodes to that value. -/
theorem decode_eq_ok_iff (t : HostType) {value : Value} (h : HasType t.descriptor value)
    (x : t.Val) : t.decode value = .ok x ↔ t.encode x = .ok value := by
  cases t with
  | scalar s => exact Scalar.decode_eq_ok_iff h
  | pointer kind target => exact decode_eq_ok_iff target h x
  | optional target =>
    cases x with
    | none => exact ⟨fun hx => absurd hx map_some_ne_none, nofun⟩
    | some x => exact map_some_eq_ok_iff.trans (decode_eq_ok_iff target h x)
  | sequence extent element =>
    have hs : ∀ items, decodeSequence element element.decode extent.size? value = .ok items ↔
        encodeSequence element element.encode extent.size? items = .ok value :=
      fun items => decodeSequence_eq_ok_iff (fun v hv => decode_eq_ok_iff element hv) h
    refine bind_eq_ok_iff_of_inverse (fun items whole => ?_) hs x
    refine Iff.trans ?_ Extent.ofList?_eq_some_iff
    cases extent.ofList? items with
    | none => exact ⟨nofun, nofun⟩
    | some found =>
      exact ⟨fun hw => congrArg some (Except.ok.inj hw),
        fun hw => congrArg Except.ok (Option.some.inj hw)⟩
  | record name fields =>
    cases h with
    | @tuple _ tuple h =>
      have hf := decodeFields_eq_ok_iff fields h x
      have he : (encodeFields fields x).map Value.tuple = .ok (.tuple tuple) ↔
          encodeFields fields x = .ok tuple := by
        rw [Result.map_eq_ok]
        simp
      exact hf.trans he.symm

theorem decodeFields_eq_ok_iff (fields : List (Named HostType)) {tuple : List (Named Value)}
    (h : HaveTypes (fieldDescriptors fields) tuple) (xs : Vals fields) :
    decodeFields fields ⟨tuple⟩ = .ok xs ↔ encodeFields fields xs = .ok tuple := by
  cases fields with
  | nil =>
    cases h
    exact ⟨fun _ => rfl, fun _ => rfl⟩
  | cons field fields =>
    obtain ⟨name, type⟩ := field
    obtain ⟨x, xs⟩ := xs
    cases h with
    | @cons _ _ value _ rest hv hs =>
      have hp := decode_eq_ok_iff type hv x
      have hr := decodeFields_eq_ok_iff fields hs xs
      -- The names stand in the order of the fields, so even a repeated one is found in front.
      rw [decodeFields_cons, TupleFields.take_of_extract? (extract?_cons name value rest),
        encodeFields, Result.both_eq_ok]
      refine Result.both_eq_ok.trans ?_
      simp only [Result.within_eq_ok]
      constructor
      · intro h
        obtain ⟨a, b, ha, hb, hx⟩ := h
        cases hx
        exact ⟨value, rest, hp.1 ha, hr.1 hb, rfl⟩
      · intro h
        obtain ⟨v, tail, hv, ht, hx⟩ := h
        cases hx
        exact ⟨x, xs, hp.2 hv, hr.2 ht, rfl⟩

end

mutual

/-- What a host value encodes to is of its descriptor, and every number in it fits. -/
theorem encode_sound (t : HostType) {x : t.Val} {value : Value} (h : t.encode x = .ok value) :
    HasType t.descriptor value ∧ t.descriptor.shape.InRange value.datum := by
  cases t with
  | scalar s => exact Scalar.encode_sound h
  | pointer kind target => exact encode_sound target h
  | optional target =>
    cases x with
    | none => cases h
    | some x => exact encode_sound target h
  | sequence extent element =>
    exact encodeSequence_sound (fun n hn => Extent.length_toList hn)
      (fun x v hv => encode_sound element hv) h
  | record name fields =>
    rw [encode, Result.map_eq_ok] at h
    obtain ⟨tuple, ht, rfl⟩ := h
    have hs := encodeFields_sound fields ht
    exact ⟨.tuple hs.1, hs.2⟩

theorem encodeFields_sound (fields : List (Named HostType)) {xs : Vals fields}
    {tuple : List (Named Value)} (h : encodeFields fields xs = .ok tuple) :
    HaveTypes (fieldDescriptors fields) tuple ∧
      Abi.Shape.AllInRange (Descriptor.shapes (fieldDescriptors fields))
        (Value.fieldData tuple) := by
  cases fields with
  | nil =>
    cases h
    exact ⟨.nil, trivial⟩
  | cons field fields =>
    obtain ⟨name, type⟩ := field
    obtain ⟨x, xs⟩ := xs
    rw [encodeFields, Result.both_eq_ok] at h
    obtain ⟨value, rest, hv, hr, rfl⟩ := h
    have ht := encode_sound type (Result.within_eq_ok.1 hv)
    have hs := encodeFields_sound fields hr
    exact ⟨.cons ht.1 hs.1, ht.2, hs.2⟩

end

theorem check_encode {t : HostType} {x : t.Val} {value : Value} (h : t.encode x = .ok value) :
    value.check t.descriptor = .ok () := by
  obtain ⟨ht, hr⟩ := t.encode_sound h
  exact ht.check_eq_ok_iff.2 hr

end HostType

end Attest
