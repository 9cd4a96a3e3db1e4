import Attest.Proofs.Codec

set_option autoImplicit false

/-!
# Names for decoded data

A payload is read by shapes, which have no names, and the data that are read take the names of the
types afterwards. Naming looks at kinds and lengths once more, but it goes by the same type as the
reader did: it never fails, and forgetting the names again gives the data that were read.
-/
namespace Attest

open Abi

theorem exists_elements {element : Descriptor} {data : List Datum}
    (h : ∀ d ∈ data, ∃ v, HasType element v ∧ v.datum = d) :
    ∃ values, (∀ v ∈ values, HasType element v) ∧ Value.elementData values = data := by
  induction data with
  | nil => exact ⟨[], nofun, rfl⟩
  | cons d data ih =>
    rw [List.forall_mem_cons] at h
    obtain ⟨v, hv, hd⟩ := h.1
    obtain ⟨values, hvs, hds⟩ := ih h.2
    refine ⟨v :: values, List.forall_mem_cons.2 ⟨hv, hvs⟩, ?_⟩
    rw [Value.elementData, hd, hds]

mutual

/-- A datum of a type's shape is the datum of a value of the type. -/
theorem exists_hasType (type : Descriptor) {datum : Datum} (h : Admits type.shape datum) :
    ∃ v, HasType type v ∧ v.datum = datum := by
  cases type with
  | tuple types =>
    cases h with
    | tuple h =>
      obtain ⟨fields, ht, hd⟩ := exists_haveTypes types h
      exact ⟨.tuple fields, .tuple ht, congrArg Datum.tuple hd⟩
  | fixedArray size element =>
    cases h with
    | fixedArray h =>
      obtain ⟨hl, ha⟩ := admitsAll_replicate_iff.1 h
      obtain ⟨values, hv, hd⟩ := exists_elements fun d hd => exists_hasType element (ha d hd)
      have hn : values.length = size := by
        rw [← hl, ← hd, Value.elementData_eq, List.length_map]
      exact ⟨.fixedArray values, .fixedArray hn hv, congrArg Datum.fixedArray hd⟩
  | array element =>
    cases h with
    | array h =>
      have ha := (admitsAll_replicate_iff.1 h).2
      obtain ⟨values, hv, hd⟩ := exists_elements fun d hd => exists_hasType element (ha d hd)
      exact ⟨.array values, .array hv, congrArg Datum.array hd⟩
  | fixedBytes size =>
    cases h with
    | fixedBytes h => exact ⟨_, .fixedBytes h, rfl⟩
  | address =>
    cases h with
    | address a => exact ⟨_, .address a, rfl⟩
  | bool =>
    cases h with
    | bool b => exact ⟨_, .bool b, rfl⟩
  | string =>
    cases h with
    | string text => exact ⟨_, .string text, rfl⟩
  | bytes =>
    cases h with
    | bytes data => exact ⟨_, .bytes data, rfl⟩
  | uint width =>
    cases h with
    | uint _ n => exact ⟨_, .uint width n, rfl⟩
  | uint256 =>
    cases h with
    | uint _ n => exact ⟨_, .uint256 n, rfl⟩

theorem exists_haveTypes (types : List Declaration) {members : List Datum}
    (h : AdmitsAll (Descriptor.shapes types) members) :
    ∃ fields, HaveTypes types fields ∧ Value.fieldData fields = members := by
  cases types with
  | nil =>
    cases h
    exact ⟨[], .nil, rfl⟩
  | cons declaration types =>
    obtain ⟨name, type⟩ := declaration
    cases h with
    | cons h hs =>
      obtain ⟨v, hv, hd⟩ := exists_hasType type h
      obtain ⟨fields, hf, hds⟩ := exists_haveTypes types hs
      refine ⟨⟨name, v⟩ :: fields, .cons hv hf, ?_⟩
      rw [Value.fieldData, hd, hds]

end

theorem exists_values {types : List Descriptor} {data : List Datum}
    (h : AdmitsAll (types.map Descriptor.shape) data) :
    ∃ values, List.Forall₂ HasType types values ∧ values.map Value.datum = data := by
  induction types generalizing data with
  | nil =>
    cases h
    exact ⟨[], .nil, rfl⟩
  | cons type types ih =>
    cases h with
    | cons h hs =>
      obtain ⟨v, hv, hd⟩ := exists_hasType type h
      obtain ⟨values, ht, hds⟩ := ih hs
      refine ⟨v :: values, .cons hv ht, ?_⟩
      rw [List.map_cons, hd, hds]

namespace Codec

variable {policy : Policy} {types : List Descriptor} {data : Bytes} {found : List Datum}

theorem exists_nameData (h : decode (types.map Descriptor.shape) data = .ok found) :
    ∃ values, nameData types found = .ok values ∧ List.Forall₂ HasType types values ∧
      values.map Value.datum = found := by
  have ha := (decode_sound h).1
  have hl : found.length = types.length := by rw [ha.length_eq, List.length_map]
  obtain ⟨values, hv⟩ := exists_values ha
  exact ⟨values, (nameData_eq_ok_iff hl).2 hv, hv⟩

theorem accept_eq_error {fault : DecodeFault} (h : accept policy types data = .error fault) :
    (∃ size limit, fault = .tooLong size limit) ∨ ∃ type, fault = .emptyTuple type := by
  rw [accept] at h
  cases hm : policy.maxLength with
  | none =>
    rw [hm] at h
    dsimp only at h
    split at h <;> cases h
    exact .inr ⟨_, rfl⟩
  | some limit =>
    rw [hm] at h
    dsimp only at h
    by_cases hd : limit < data.length
    · rw [if_pos hd] at h
      cases h
      exact .inl ⟨_, _, rfl⟩
    · rw [if_neg hd] at h
      split at h <;> cases h
      exact .inr ⟨_, rfl⟩

theorem decodeData_eq_error {fault : DecodeFault}
    (h : decodeData policy types data = .error fault) :
    (∃ cause, fault = .abi cause) ∨ fault = .notCanonical := by
  rw [decodeData] at h
  split at h
  · cases h
    exact .inl ⟨_, rfl⟩
  · split at h
    · cases h
      exact .inr rfl
    · cases h

theorem decodeValues_eq_error {failure : Failure}
    (h : decodeValues policy types data = .error failure) : ∃ fault, failure = .decoding fault ∧
      (accept policy types data = .error fault ∨ decodeData policy types data = .error fault) := by
  rw [decodeValues] at h
  cases ha : accept policy types data with
  | error fault =>
    rw [ha] at h
    cases h
    exact ⟨fault, rfl, .inl rfl⟩
  | ok _ =>
    cases hd : decodeData policy types data with
    | error fault =>
      rw [ha, hd] at h
      cases h
      exact ⟨fault, rfl, .inr rfl⟩
    | ok found =>
      obtain ⟨values, hv, -⟩ := exists_nameData (decodeData_eq_ok_iff.1 hd).1
      rw [ha, hd] at h
      cases hv.symm.trans h

/-- Every datum that is read is named, each by its own type: the value is of the type, with the
    type's names on its tuples in order and at every depth, and the datum is what is left of it
    without them. So no payload is refused because a datum does not match its type, under any types:
    those with an empty tuple are refused before anything is read. -/
theorem nameData_decoded (types : List Descriptor) (data : Bytes) :
    (∀ found, decode (types.map Descriptor.shape) data = .ok found →
      ∃ values, nameData types found = .ok values ∧
        List.Forall₂ (fun type value =>
          Value.ofDatum type value.datum = .ok value ∧ HasType type value) types values ∧
        values.map Value.datum = found) ∧
      ∀ policy datum type,
        decodeValues policy types data ≠ .error (.decoding (.mismatch datum type)) := by
  constructor
  · intro found h
    obtain ⟨values, hn, ht, hd⟩ := exists_nameData h
    refine ⟨values, hn, ht.imp fun type value hv => ⟨?_, hv⟩, hd⟩
    exact (ofDatum_eq_ok_iff type).2 ⟨hv, rfl⟩
  · intro policy datum type h
    obtain ⟨fault, hf, ha | hd⟩ := decodeValues_eq_error h
    · cases hf
      rcases accept_eq_error ha with ⟨size, limit, he⟩ | ⟨empty, he⟩ <;> cases he
    · cases hf
      rcases decodeData_eq_error hd with ⟨cause, he⟩ | he <;> cases he

def seatTypes : List Descriptor :=
  [.array (.tuple [⟨"seat", .fixedBytes 33⟩, ⟨"seat", .uint .w8⟩, ⟨"", .fixedArray 0 .string⟩]),
    .bool]

/-- A single row, whose number is too wide for its type. -/
def seatPayload : Bytes :=
  sizeWord 64 ++ sizeWord 1 ++ sizeWord 1 ++ sizeWord 32 ++ sizeWord 7 ++ sizeWord 300 ++ sizeWord 0

def seatValues : List Value :=
  [.array [.tuple [⟨"seat", .fixedBytes (sizeWord 7 ++ [0])⟩, ⟨"seat", .uint 300⟩,
      ⟨"", .fixedArray []⟩]],
    .bool true]

set_option maxRecDepth 4000 in
theorem nameData_decoded_seats :
    decode (seatTypes.map Descriptor.shape) seatPayload = .ok (seatValues.map Value.datum) ∧
      List.Forall₂ (fun type value =>
        Value.ofDatum type value.datum = .ok value ∧ HasType type value) seatTypes seatValues := by
  have hd : decode (seatTypes.map Descriptor.shape) seatPayload =
      .ok (seatValues.map Value.datum) := rfl
  obtain ⟨values, hn, ht, -⟩ := (nameData_decoded seatTypes seatPayload).1 _ hd
  have he : values = seatValues := by
    cases hn
    rfl
  exact ⟨hd, he ▸ ht⟩

end Codec

end Attest
