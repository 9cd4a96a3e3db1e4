import Attest.Proofs.Abi.Reading
import Attest.Proofs.Conformance

set_option autoImplicit false

namespace Attest.Codec

open Abi

variable {policy : Policy} {types : List Descriptor} {data : Bytes}

theorem accept_eq_ok_iff : accept policy types data = .ok () ↔
    (∀ limit, policy.maxLength = some limit → data.length ≤ limit) ∧
      ∀ type ∈ types, type.hasEmptyTuple = false := by
  have hn : types.find? Descriptor.hasEmptyTuple = none ↔
      ∀ type ∈ types, type.hasEmptyTuple = false := by
    simp [List.find?_eq_none]
  rw [accept, ← hn]
  cases policy.maxLength with
  | none =>
    cases types.find? Descriptor.hasEmptyTuple <;>
      simp [pure, Except.pure, throw, throwThe, MonadExceptOf.throw]
  | some limit =>
    by_cases hd : limit < data.length
    · have hle : ¬ data.length ≤ limit := by omega
      simp [hd, hle, throw, throwThe, MonadExceptOf.throw, bind, Except.bind]
    · have hle : data.length ≤ limit := by omega
      cases types.find? Descriptor.hasEmptyTuple <;>
        simp [hd, hle, pure, Except.pure, throw, throwThe, MonadExceptOf.throw]

theorem decodeData_eq_ok_iff {values : List Datum} : decodeData policy types data = .ok values ↔
    decode (types.map Descriptor.shape) data = .ok values ∧
      (policy.strict = true → encode values = data) := by
  rw [decodeData]
  cases decode (types.map Descriptor.shape) data with
  | error fault => simp
  | ok found =>
    by_cases hs : policy.strict = true <;> by_cases he : encode found = data <;>
      simp [hs, he] <;> rintro rfl <;> exact he

theorem nameData_eq_ok_iff {found : List Datum} {values : List Value}
    (hl : found.length = types.length) : nameData types found = .ok values ↔
      List.Forall₂ HasType types values ∧ values.map Value.datum = found := by
  induction types generalizing found values with
  | nil =>
    rw [List.eq_nil_of_length_eq_zero hl, List.forall₂_nil_left_iff]
    constructor
    · intro h
      cases h
      exact ⟨rfl, rfl⟩
    · intro hx
      obtain ⟨rfl, -⟩ := hx
      rfl
  | cons type types ih =>
    cases found with
    | nil => simp at hl
    | cons datum found =>
      have hn : found.length = types.length := by simpa using hl
      rw [nameData, Result.both_eq_ok, List.forall₂_cons_left_iff]
      simp only [ofDatum_eq_ok_iff type, ih hn]
      constructor
      · intro hx
        obtain ⟨v, rest, ⟨hv, rfl⟩, ⟨hs, rfl⟩, rfl⟩ := hx
        exact ⟨⟨v, rest, hv, hs, rfl⟩, rfl⟩
      · intro hx
        obtain ⟨⟨v, rest, hv, hs, rfl⟩, hd⟩ := hx
        rw [List.map_cons, List.cons.injEq] at hd
        exact ⟨v, rest, ⟨hv, hd.1⟩, ⟨hs, hd.2⟩, rfl⟩

theorem decodeValues_eq_ok_iff {values : List Value} :
    decodeValues policy types data = .ok values ↔ accept policy types data = .ok () ∧
      decode (types.map Descriptor.shape) data = .ok (values.map Value.datum) ∧
      (policy.strict = true → encode (values.map Value.datum) = data) ∧
      List.Forall₂ HasType types values := by
  have hs : decodeValues policy types data = .ok values ↔ accept policy types data = .ok () ∧
      ∃ found, decodeData policy types data = .ok found ∧ nameData types found = .ok values := by
    rw [decodeValues]
    cases accept policy types data with
    | error fault => simp [Except.mapError, bind, Except.bind]
    | ok _ =>
      cases decodeData policy types data with
      | error fault => simp [Except.mapError, bind, Except.bind]
      | ok found => simp [Except.mapError, bind, Except.bind]
  have hl : ∀ found, decode (types.map Descriptor.shape) data = .ok found →
      found.length = types.length := by
    intro found hd
    rw [(decode_sound hd).1.length_eq, List.length_map]
  rw [hs]
  constructor
  · intro h
    obtain ⟨ha, found, hf, hn⟩ := h
    obtain ⟨hd, he⟩ := decodeData_eq_ok_iff.1 hf
    obtain ⟨ht, rfl⟩ := (nameData_eq_ok_iff (hl found hd)).1 hn
    exact ⟨ha, hd, he, ht⟩
  · intro h
    obtain ⟨ha, hd, he, ht⟩ := h
    exact ⟨ha, _, decodeData_eq_ok_iff.2 ⟨hd, he⟩, (nameData_eq_ok_iff (hl _ hd)).2 ⟨ht, rfl⟩⟩

/-- Decoded values are of the types; under a strict policy they encode to the payload. -/
theorem decodeValues_sound {values : List Value} (h : decodeValues policy types data = .ok values) :
    List.Forall₂ HasType types values ∧
      (policy.strict = true → encode (values.map Value.datum) = data) := by
  obtain ⟨-, -, he, ht⟩ := decodeValues_eq_ok_iff.1 h
  exact ⟨ht, he⟩

/-- The encoding of values of the types decodes to them when their data are read back from it. -/
theorem decodeValues_encode_iff {values : List Value} {strict : Bool}
    (ht : List.Forall₂ HasType types values) :
    decodeValues { strict } types (encode (values.map Value.datum)) = .ok values ↔
      (∀ type ∈ types, type.hasEmptyTuple = false) ∧
        decode (types.map Descriptor.shape) (encode (values.map Value.datum)) =
          .ok (values.map Value.datum) := by
  rw [decodeValues_eq_ok_iff, accept_eq_ok_iff]
  constructor
  · intro h
    obtain ⟨⟨-, he⟩, hd, -, -⟩ := h
    exact ⟨he, hd⟩
  · intro h
    obtain ⟨he, hd⟩ := h
    exact ⟨⟨nofun, he⟩, hd, fun _ => rfl, ht⟩

end Attest.Codec
