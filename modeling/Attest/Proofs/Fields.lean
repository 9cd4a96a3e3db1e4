import Attest.Proofs.Abi.Proper
import Attest.Proofs.Codec

set_option autoImplicit false

namespace Attest

open Abi

namespace Descriptor

/-- Whether a schema can write the type: `bytesN` with 1 to 32 bytes, no array of size zero, no
    tuple without fields. -/
def Expressible (type : Descriptor) : Prop := type.shape.Proper

mutual

theorem hasEmptyTuple_of_proper (type : Descriptor) (h : type.shape.Proper) :
    type.hasEmptyTuple = false := by
  cases type with
  | tuple fields =>
    have hn : fields.isEmpty = false := by
      cases fields with
      | nil => exact absurd rfl h.1
      | cons field fields => rfl
    rw [hasEmptyTuple, hn, anyEmptyTuple_of_allProper fields h.2]
    rfl
  | fixedArray size element => exact hasEmptyTuple_of_proper element h.2
  | array element => exact hasEmptyTuple_of_proper element h
  | _ => rfl

theorem anyEmptyTuple_of_allProper (fields : List Declaration)
    (h : Shape.AllProper (shapes fields)) : anyEmptyTuple fields = false := by
  cases fields with
  | nil => rfl
  | cons field fields =>
    rw [anyEmptyTuple, hasEmptyTuple_of_proper field.item h.1,
      anyEmptyTuple_of_allProper fields h.2]
    rfl

end

end Descriptor

def Item.declaration (item : Item) : Declaration := ⟨item.name, item.type⟩

namespace Codec

variable {items : List Item}

theorem admitsAll_of_check (hc : ∀ i ∈ items, i.value.check i.type = .ok ()) :
    AdmitsAll ((items.map Item.type).map Descriptor.shape)
      (items.map fun i => i.value.datum) := by
  induction items with
  | nil => exact .nil
  | cons i items ih =>
    rw [List.forall_mem_cons] at hc
    exact .cons ((check_eq_ok_iff i.type i.value).1 hc.1).1 (ih hc.2)

theorem allProper_of_expressible (ht : ∀ i ∈ items, i.type.Expressible) :
    Shape.AllProper ((items.map Item.type).map Descriptor.shape) := by
  induction items with
  | nil => trivial
  | cons i items ih =>
    rw [List.forall_mem_cons] at ht
    exact ⟨ht.1, ih ht.2⟩

theorem itemDatum_eq_ok_iff {item : Item} {datum : Datum} :
    itemDatum item = .ok datum ↔ item.value.check item.type = .ok () ∧
      item.value.datum = datum := by
  rw [itemDatum, Result.bind_eq_ok]
  simp only [Result.pure_eq_ok]
  constructor
  · intro h
    obtain ⟨⟨⟩, hc, hd⟩ := h
    exact ⟨hc, hd⟩
  · intro h
    obtain ⟨hc, hd⟩ := h
    exact ⟨(), hc, hd⟩

theorem encodeItems_eq_ok_iff {data : Bytes} : encodeItems items = .ok data ↔
    (∀ i ∈ items, i.value.check i.type = .ok ()) ∧
      encode (items.map fun i => i.value.datum) = data := by
  rw [encodeItems, Result.map_eq_ok]
  simp only [Result.collect_eq_ok, itemDatum_eq_ok_iff, forall₂_and_map]
  constructor
  · intro h
    obtain ⟨_, ⟨hc, rfl⟩, he⟩ := h
    exact ⟨hc, he⟩
  · intro h
    obtain ⟨hc, he⟩ := h
    exact ⟨_, ⟨hc, rfl⟩, he⟩

theorem hasType_items_renamed (hc : ∀ i ∈ items, i.value.check i.type = .ok ()) :
    List.Forall₂ HasType (items.map Item.type) (items.map fun i => i.value.renamed i.type) ∧
      (items.map fun i => i.value.renamed i.type).map Value.datum =
        items.map fun i => i.value.datum := by
  have hr : ∀ i ∈ items, HasType i.type (i.value.renamed i.type) ∧
      (i.value.renamed i.type).datum = i.value.datum :=
    fun i hi => hasType_renamed i.type ((check_eq_ok_iff i.type i.value).1 (hc i hi)).1
  rw [List.forall₂_map_left_iff, List.forall₂_map_right_iff, List.forall₂_same, List.map_map]
  exact ⟨fun i hi => (hr i hi).1, List.map_congr_left fun i hi => (hr i hi).2⟩

/-- Decoding undoes encoding over every type that a schema can write. Only the names of fields
    change, to those of the types. -/
theorem decodeValues_encodeItems (items : List Item) (ht : ∀ i ∈ items, i.type.Expressible)
    (hc : ∀ i ∈ items, i.value.check i.type = .ok ())
    (hl : (encode (items.map fun i => i.value.datum)).length < 2 ^ 32) :
    ∃ data, encodeItems items = .ok data ∧ ∀ strict : Bool,
      decodeValues { strict } (items.map Item.type) data =
        .ok (items.map fun i => i.value.renamed i.type) := by
  refine ⟨_, encodeItems_eq_ok_iff.2 ⟨hc, rfl⟩, fun strict => ?_⟩
  obtain ⟨hr, hm⟩ := hasType_items_renamed hc
  have hd := decode_encode (admitsAll_of_check hc) (allProper_of_expressible ht) hl
  have he : ∀ type ∈ items.map Item.type, type.hasEmptyTuple = false := by
    rw [List.forall_mem_map]
    exact fun i hi => Descriptor.hasEmptyTuple_of_proper i.type (ht i hi)
  rw [← hm] at hd ⊢
  exact (decodeValues_encode_iff hr).2 ⟨he, hd⟩

/-- Names of fields that are absent, repeated or not the type's own, and text beyond ASCII. -/
def reportItems : List Item :=
  [⟨"report", .tuple [⟨"votes", .array (.tuple [⟨"voter", .string⟩, ⟨"weight", .uint .w8⟩])⟩,
      ⟨"flags", .fixedArray 2 .bool⟩],
    .tuple [⟨"", .array [.tuple [⟨"a", .string "né"⟩, ⟨"a", .uint 255⟩]]⟩,
      ⟨"x", .fixedArray [.bool true, .bool false]⟩]⟩,
   ⟨"", .fixedBytes 2, .fixedBytes [1, 2]⟩]

theorem decodeValues_encodeItems_report : ∃ data, encodeItems reportItems = .ok data ∧
    ∀ strict : Bool, decodeValues { strict } (reportItems.map Item.type) data =
      .ok [.tuple [⟨"votes", .array [.tuple [⟨"voter", .string "né"⟩, ⟨"weight", .uint 255⟩]]⟩,
          ⟨"flags", .fixedArray [.bool true, .bool false]⟩],
        .fixedBytes [1, 2]] := by
  refine decodeValues_encodeItems reportItems ?_ ?_ ?_
  · simp [reportItems, Descriptor.Expressible, Descriptor.shape, Descriptor.shapes, Shape.Proper,
      Shape.AllProper]
  · intro i hi
    simp only [reportItems, List.mem_cons, List.not_mem_nil, or_false] at hi
    rcases hi with rfl | rfl <;> rfl
  · decide +kernel

theorem items_of_values {p : Descriptor → Value → Prop} {declarations : List Declaration}
    {values : List Value} (h : List.Forall₂ p (declarations.map Named.item) values) :
    (∀ i ∈ declarations.zipWith (fun d value => (⟨d.name, d.item, value⟩ : Item)) values,
        p i.type i.value) ∧
      (declarations.zipWith (fun d value => (⟨d.name, d.item, value⟩ : Item)) values).map
        Item.value = values := by
  rw [List.forall₂_map_left_iff] at h
  induction h with
  | nil => exact ⟨nofun, rfl⟩
  | cons hv _ ih =>
    rw [List.zipWith_cons_cons, List.forall_mem_cons, List.map_cons, ih.2]
    exact ⟨⟨hv, ih.1⟩, rfl⟩

theorem declarations_of_values {p : Descriptor → Value → Prop} {declarations : List Declaration}
    {values : List Value} (h : List.Forall₂ p (declarations.map Named.item) values) :
    (declarations.zipWith (fun d value => (⟨d.name, d.item, value⟩ : Item)) values).map
      Item.declaration = declarations := by
  rw [List.forall₂_map_left_iff] at h
  induction h with
  | nil => rfl
  | cons _ _ ih =>
    rw [List.zipWith_cons_cons, List.map_cons, ih]
    rfl

theorem decodeFields_sound {policy : Policy} {schema : String} {data : Bytes}
    (h : decodeFields policy schema data = .ok items) :
    Schema.parse schema = .ok (items.map Item.declaration) ∧
      (∀ i ∈ items, HasType i.type i.value) ∧
      (policy.strict = true → encode (items.map fun i => i.value.datum) = data) := by
  rw [decodeFields, Result.bind_eq_ok] at h
  obtain ⟨declarations, hs, h⟩ := h
  rw [Result.bind_eq_ok] at h
  obtain ⟨values, hv, h⟩ := h
  cases h
  obtain ⟨ht, he⟩ := decodeValues_sound hv
  obtain ⟨hi, hm⟩ := items_of_values ht
  refine ⟨by rw [declarations_of_values ht, hs], hi, fun hp => ?_⟩
  have hd := he hp
  rwa [← hm, List.map_map] at hd

/-- Strict decoding does not see how wide a number is, and encoding does: what was decoded is
    encoded to the same payload exactly when its numbers fit their types. -/
theorem encodeItems_decodeFields {policy : Policy} {schema : String} {data : Bytes}
    (hs : policy.strict = true) (h : decodeFields policy schema data = .ok items) :
    encodeItems items = .ok data ↔ ∀ i ∈ items, i.type.shape.InRange i.value.datum := by
  rw [decodeFields, Result.bind_eq_ok] at h
  obtain ⟨declarations, -, h⟩ := h
  rw [Result.bind_eq_ok] at h
  obtain ⟨values, hv, h⟩ := h
  cases h
  obtain ⟨ht, he⟩ := decodeValues_sound hv
  obtain ⟨hi, hm⟩ := items_of_values ht
  have hd := he hs
  rw [← hm, List.map_map] at hd
  rw [encodeItems_eq_ok_iff]
  constructor
  · rintro ⟨hc, -⟩ i hm
    exact (hi i hm).check_eq_ok_iff.1 (hc i hm)
  · intro hr
    exact ⟨fun i hm => (hi i hm).check_eq_ok_iff.2 (hr i hm), hd⟩

theorem parse_byteField : Schema.parse "uint8 x" = .ok [⟨"x", .uint .w8⟩] := by
  have hs : Schema.split "uint8 x".toList = .ok ["uint8 x".toList] := rfl
  have hp : Schema.plainType "uint8".toList = .ok (.uint .w8) := by
    change Schema.suffixed (.uint .w8) [] = _
    rw [Schema.suffixed]
  have hd : Schema.declaration "uint8 x".toList = .ok ⟨"x", .uint .w8⟩ := by
    change (Schema.plainType "uint8".toList).bind
      (fun type => .ok (⟨"x", type⟩ : Declaration)) = _
    rw [hp]
    rfl
  rw [Schema.parse, Schema.parseList_eq, if_neg (by decide), hs]
  simp only [List.mapM_cons, List.mapM_nil, hd]
  rfl

theorem encodeItems_decodeFields_byte :
    decodeFields { strict := true } "uint8 x" (bigEndian 32 255) =
        .ok [⟨"x", .uint .w8, .uint 255⟩] ∧
      encodeItems [⟨"x", .uint .w8, .uint 255⟩] = .ok (bigEndian 32 255) := by
  have hd : decodeFields { strict := true } "uint8 x" (bigEndian 32 255) =
      .ok [⟨"x", .uint .w8, .uint 255⟩] := by
    rw [decodeFields, parse_byteField]
    rfl
  refine ⟨hd, (encodeItems_decodeFields rfl hd).2 ?_⟩
  rw [List.forall_mem_singleton]
  change (255 : Word).toNat < 2 ^ 8
  decide

/-- A byte field whose word holds 256 passes strict decoding and does not encode. -/
theorem not_encodeItems_decodeFields :
    decodeFields { strict := true } "uint8 x" (bigEndian 32 256) =
        .ok [⟨"x", .uint .w8, .uint 256⟩] ∧
      encodeItems [⟨"x", .uint .w8, .uint 256⟩] ≠ .ok (bigEndian 32 256) := by
  constructor
  · rw [decodeFields, parse_byteField]
    rfl
  · nofun

end Codec

end Attest
