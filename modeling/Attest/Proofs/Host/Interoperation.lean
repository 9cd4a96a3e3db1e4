import Attest.Proofs.Host.Conversion

set_option autoImplicit false

namespace Attest

theorem Scalar.exists_encode {s : Scalar} {value : Value} (h : HasType s.descriptor value)
    (hr : s.descriptor.shape.InRange value.datum) : ∃ x, s.encode x = .ok value := by
  cases s with
  | uint width =>
    cases h with
    | uint _ n =>
      have hn : n.toNat < 1 <<< width.bits := by
        rw [Nat.one_shiftLeft]
        exact hr
      exact ⟨BitVec.ofNat width.bits n.toNat, decodeUint_eq_ok_iff.1 (if_pos hn)⟩
  | word =>
    cases h with
    | uint256 n => exact ⟨n, rfl⟩
  | natural =>
    cases h with
    | uint256 n => exact ⟨n.toNat, encodeNatural_eq_ok_iff.2 ⟨n, rfl, rfl⟩⟩
  | bool =>
    cases h with
    | bool b => exact ⟨b, rfl⟩
  | string =>
    cases h with
    | string text => exact ⟨text, rfl⟩
  | stringView =>
    cases h with
    | string text => exact ⟨text, rfl⟩
  | address =>
    cases h with
    | address a => exact ⟨a, rfl⟩
  | hash =>
    cases h with
    | @fixedBytes _ data hl => exact ⟨(⟨data.toArray, by simpa using hl⟩ : Vector UInt8 32), rfl⟩
  | uid =>
    cases h with
    | @fixedBytes _ data hl => exact ⟨⟨⟨data.toArray, by simpa using hl⟩⟩, rfl⟩
  | bytes =>
    cases h with
    | bytes data => exact ⟨data, rfl⟩

theorem Extent.exists_toList {α : Type} {extent : Extent} {items : List α}
    (h : ∀ n, extent.size? = some n → items.length = n) :
    ∃ whole : extent.Of α, extent.toList whole = items := by
  cases extent with
  | growing => exact ⟨items, rfl⟩
  | view => exact ⟨items, rfl⟩
  | fixed size => exact ⟨(⟨items.toArray, by simpa using h size rfl⟩ : Vector α size), rfl⟩

namespace HostType

section Sequences

variable {element : HostType} {encode : element.Val → Result Value}

theorem exists_convertElements {values : List Value} (h : ∀ v ∈ values, ∃ x, encode x = .ok v) :
    ∃ items, convertElements encode 0 items = .ok values ∧ items.length = values.length := by
  have hs : ∃ items, List.Forall₂ (fun x v => encode x = .ok v) items values := by
    induction values with
    | nil => exact ⟨[], .nil⟩
    | cons v values ih =>
      rw [List.forall_mem_cons] at h
      obtain ⟨x, hx⟩ := h.1
      obtain ⟨items, hi⟩ := ih h.2
      exact ⟨x :: items, .cons hx hi⟩
  obtain ⟨items, hi⟩ := hs
  exact ⟨items, Result.convertElements_eq_ok.2 hi, hi.length_eq⟩

theorem exists_encodeSequence {size : Option Nat} {value : Value}
    (hc : ∀ v, HasType element.descriptor v → element.descriptor.shape.InRange v.datum →
      ∃ x, encode x = .ok v)
    (h : HasType (sequenceDescriptor element.isByte element.descriptor size) value)
    (hr : (sequenceDescriptor element.isByte element.descriptor size).shape.InRange value.datum) :
    ∃ items, encodeSequence element encode size items = .ok value ∧
      ∀ n, size = some n → items.length = n := by
  cases size with
  | none =>
    by_cases hb : element.isByte = true
    · cases isByte_eq_true_iff.1 hb
      cases h with
      | bytes data => exact ⟨data.map UInt8.toBitVec, bytes_eq_ok_iff.1 rfl, nofun⟩
    · rw [Bool.not_eq_true] at hb
      rw [sequenceDescriptor, hb] at h hr
      cases h with
      | @array _ values hv =>
        change ∀ d ∈ Value.elementData values, _ at hr
        rw [Value.elementData_eq, List.forall_mem_map] at hr
        obtain ⟨items, hi, -⟩ := exists_convertElements fun v hm => hc v (hv v hm) (hr v hm)
        exact ⟨items, by rw [encodeSequence_growing hb, hi]; rfl, nofun⟩
  | some size =>
    by_cases hb : element.isByte = true ∧ size = 32
    · obtain ⟨hb, rfl⟩ := hb
      cases isByte_eq_true_iff.1 hb
      cases h with
      | @fixedBytes _ data hl =>
        have hd : (data.map UInt8.toBitVec).map UInt8.ofBitVec = data := map_toBitVec_eq_iff.1 rfl
        refine ⟨data.map UInt8.toBitVec, congrArg (fun d => Except.ok (Value.fixedBytes d)) hd, ?_⟩
        rintro n ⟨⟩
        exact (List.length_map _).trans hl
    · rw [sequenceDescriptor, if_neg hb] at h hr
      cases h with
      | @fixedArray _ _ values hl hv =>
        change ∀ d ∈ Value.elementData values, _ at hr
        rw [Value.elementData_eq, List.forall_mem_map] at hr
        obtain ⟨items, hi, hn⟩ := exists_convertElements fun v hm => hc v (hv v hm) (hr v hm)
        refine ⟨items, by rw [encodeSequence_fixed hb, hi]; rfl, ?_⟩
        rintro n ⟨⟩
        rw [hn, hl]

end Sequences

mutual

theorem exists_encode (t : HostType) {value : Value} (h : HasType t.descriptor value)
    (hr : t.descriptor.shape.InRange value.datum) : ∃ x, t.encode x = .ok value := by
  cases t with
  | scalar s => exact Scalar.exists_encode h hr
  | pointer kind target => exact exists_encode target h hr
  | optional target =>
    obtain ⟨x, hx⟩ := exists_encode target h hr
    exact ⟨some x, hx⟩
  | sequence extent element =>
    obtain ⟨items, hi, hn⟩ :=
      exists_encodeSequence (fun v hv hd => exists_encode element hv hd) h hr
    obtain ⟨whole, rfl⟩ := Extent.exists_toList hn
    exact ⟨whole, hi⟩
  | record name fields =>
    cases h with
    | tuple h =>
      obtain ⟨xs, hx⟩ := exists_encodeFields fields h hr
      exact ⟨xs, Result.map_eq_ok.2 ⟨_, hx, rfl⟩⟩

theorem exists_encodeFields (fields : List (Named HostType)) {tuple : List (Named Value)}
    (h : HaveTypes (fieldDescriptors fields) tuple)
    (hr : Abi.Shape.AllInRange (Descriptor.shapes (fieldDescriptors fields))
      (Value.fieldData tuple)) : ∃ xs, encodeFields fields xs = .ok tuple := by
  cases fields with
  | nil =>
    cases h
    exact ⟨(), rfl⟩
  | cons field fields =>
    cases h with
    | cons hv hs =>
      obtain ⟨x, hx⟩ := exists_encode field.item hv hr.1
      obtain ⟨xs, hxs⟩ := exists_encodeFields fields hs hr.2
      exact ⟨(x, xs), Result.both_eq_ok.2 ⟨_, _, Result.within_eq_ok.2 hx, hxs, rfl⟩⟩

end

/-- What a host value encodes to can be encoded as the descriptor, every host type of that
    descriptor decodes it and encodes it again, and its own type decodes the host value that it
    comes from. Ownership is not asked for: views are decoded as their owned forms are. -/
theorem encode_interoperates (t u : HostType) (hd : t.descriptor = u.descriptor) (x : t.Val)
    (value : Value) (h : t.encode x = .ok value) :
    value.check t.descriptor = .ok () ∧
      (∃ y, u.decode value = .ok y ∧ u.encode y = .ok value) ∧ t.decode value = .ok x := by
  obtain ⟨ht, hr⟩ := encode_sound t h
  have hu : HasType u.descriptor value := hd ▸ ht
  obtain ⟨y, hy⟩ := exists_encode u hu (hd ▸ hr)
  exact ⟨ht.check_eq_ok_iff.2 hr, ⟨y, (decode_eq_ok_iff u hu y).2 hy, hy⟩,
    (decode_eq_ok_iff t ht x).2 h⟩

def receipt : HostType :=
  .record "Receipt"
    [⟨"id", .scalar .hash⟩,
     ⟨"tag", .optional (.sequence .growing (.scalar (.uint .w8)))⟩,
     ⟨"tag", .sequence (.fixed 2) (.pointer .boxed (.scalar (.uint .w8)))⟩,
     ⟨"notes", .sequence (.fixed 0) (.scalar .string)⟩]

def voucher : HostType :=
  .record "Voucher"
    [⟨"id", .sequence (.fixed 32) (.scalar (.uint .w8))⟩,
     ⟨"tag", .pointer .shared (.scalar .bytes)⟩,
     ⟨"tag", .sequence (.fixed 2) (.scalar (.uint .w8))⟩,
     ⟨"notes", .optional (.sequence (.fixed 0) (.optional (.scalar .string)))⟩]

theorem encode_interoperates_receipt : ∃ y, voucher.decode
    (.tuple [⟨"id", .fixedBytes (List.replicate 32 7)⟩, ⟨"tag", .bytes [1, 2]⟩,
      ⟨"tag", .fixedArray [.uint 3, .uint 255]⟩, ⟨"notes", .fixedArray []⟩]) = .ok y := by
  have h := encode_interoperates receipt voucher rfl
    (Vector.replicate 32 7, some [1#8, 2#8], (#v[3, 255] : Vector (BitVec 8) 2),
      (#v[] : Vector String 0), ()) _ rfl
  obtain ⟨-, ⟨y, hy, -⟩, -⟩ := h
  exact ⟨y, hy⟩

end HostType

end Attest
