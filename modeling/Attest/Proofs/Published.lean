import Attest.Proofs.Fields
import Attest.Proofs.Schema.Canonical
import Attest.Proofs.Schema.TypeText
import Attest.Proofs.Slots

set_option autoImplicit false

/-!
# Published schemas

The schema text of an argument list is read back as the types that the arguments were packed under,
so the payload is decoded under it. A record that is the only argument is published as its fields,
and packed as one argument. Where it is laid out without tails the two are the same bytes; otherwise
the payload begins with the position of the record, and its schema is the text in parentheses.
-/
namespace Attest

open Abi Schema

namespace Descriptor

mutual

theorem expressible_of_legible (type : Descriptor) (h : type.Legible) : type.Expressible := by
  cases type with
  | fixedBytes size => exact h
  | tuple fields =>
    refine ⟨fun hn => h.1 ?_, allProper_of_allLegible fields h.2.2⟩
    rw [← List.length_eq_zero_iff, ← shapes_length, hn, List.length_nil]
  | fixedArray size element => exact ⟨h.1.1, expressible_of_legible element h.2⟩
  | array element => exact expressible_of_legible element h
  | _ => trivial

theorem allProper_of_allLegible (fields : List Declaration) (h : AllLegible fields) :
    Shape.AllProper (shapes fields) := by
  cases fields with
  | nil => trivial
  | cons field fields =>
    exact ⟨expressible_of_legible field.item h.1.2, allProper_of_allLegible fields h.2⟩

end

end Descriptor

namespace HostType

mutual

/-- Whether a schema can tell the type: arrays of a fixed size have elements, no more than a machine
    word counts, records have fields, and their names hold no blanks, commas or brackets. -/
def Publishable : HostType → Prop
  | .scalar _ => True
  | .pointer _ target | .optional target => target.Publishable
  | .sequence extent element =>
    (∀ size ∈ extent.size?, 1 ≤ size ∧ size ≤ Text.sizeMax) ∧ element.Publishable
  | .record _ fields => fields ≠ [] ∧ AllPublishable fields

def AllPublishable : List (Named HostType) → Prop
  | [] => True
  | ⟨name, type⟩ :: fields =>
    ((∀ c ∈ name.toList, isPlain c = true) ∧ type.Publishable) ∧ AllPublishable fields

end

open Descriptor

mutual

theorem plain (t : HostType) (h : t.Publishable) : t.descriptor.Plain := by
  cases t with
  | scalar s => cases s <;> trivial
  | pointer kind target => exact plain target h
  | optional target => exact plain target h
  | sequence extent element =>
    have he := plain element h.2
    rw [descriptor]
    cases hs : extent.size? with
    | none =>
      rw [sequenceDescriptor]
      split
      · trivial
      · exact he
    | some size =>
      rw [sequenceDescriptor]
      split
      · exact ⟨by decide, by decide⟩
      · exact ⟨h.1 size hs, he⟩
  | record name fields =>
    refine ⟨?_, allPlain fields h.2⟩
    rw [fieldDescriptors_eq]
    simpa using h.1

theorem allPlain (fields : List (Named HostType)) (h : AllPublishable fields) :
    AllPlain (fieldDescriptors fields) := by
  cases fields with
  | nil => trivial
  | cons field fields => exact ⟨⟨h.1.1, plain field.item h.1.2⟩, allPlain fields h.2⟩

end

theorem legible (t : HostType) (h : t.Publishable) : t.descriptor.Legible := (t.plain h).legible

end HostType

def Conforms (type : Descriptor) (value : Value) : Prop :=
  HasType type value ∧ type.shape.InRange value.datum

theorem HaveTypes.conforms {types : List Declaration} {fields : List (Named Value)}
    (h : HaveTypes types fields)
    (hr : Shape.AllInRange (Descriptor.shapes types) (Value.fieldData fields)) :
    List.Forall₂ Conforms (types.map Named.item) (fields.map Named.item) ∧
      (fields.map Named.item).map Value.datum = Value.fieldData fields := by
  induction fields generalizing types with
  | nil =>
    cases h
    exact ⟨.nil, rfl⟩
  | cons field fields ih =>
    cases h with
    | cons hv hs =>
      obtain ⟨hc, hd⟩ := ih hs hr.2
      rw [List.map_cons, List.map_cons, List.map_cons, hd]
      exact ⟨.cons ⟨hv, hr.1⟩ hc, rfl⟩

namespace Abi

variable {members : List Datum}

/-- Without tails a tuple alone is the same bytes as its members. -/
theorem encode_tuple_inline (h : Datum.anyDynamic members = false) :
    encode [.tuple members] = encode members := by
  simp [encode, frame, heads, Datum.parts, Datum.isDynamic, Datum.body, h, Part.tail]

theorem encode_tuple_length (h : Datum.anyDynamic members = true) :
    (encode [.tuple members]).length = 32 + (encode members).length := by
  simp [encode, frame_length, Datum.parts, Datum.isDynamic, Datum.body, h, Part.size_eq]

theorem anyDynamic_eq_of_proper {shapes : List Shape} (h : AdmitsAll shapes members)
    (hp : Shape.AllProper shapes) : Datum.anyDynamic members = Shape.anyDynamic shapes :=
  isDynamic_eq_of_parts h (h.parts_eq (h.allAligned hp))

end Abi

namespace Codec

section Decoding

variable {schema : String} {declarations : List Declaration} {values : List Value}
  {items : List Item}

theorem decodeFields_eq_ok_iff {policy : Policy} {data : Bytes}
    (hs : Schema.parse schema = .ok declarations) : decodeFields policy schema data = .ok items ↔
      ∃ values, decodeValues policy (declarations.map Named.item) data = .ok values ∧
        declarations.zipWith (fun d value => ⟨d.name, d.item, value⟩) values = items := by
  rw [decodeFields, hs, Result.bind_eq_ok]
  simp only [Except.ok.injEq, exists_eq_left', Result.bind_eq_ok, Result.pure_eq_ok]

theorem decodeFields_encode (hs : Schema.parse schema = .ok declarations)
    (hv : List.Forall₂ Conforms (declarations.map Named.item) values)
    (hl : (encode (values.map Value.datum)).length < 2 ^ 32) :
    ∃ items, decodeFields { strict := true } schema (encode (values.map Value.datum)) = .ok items ∧
      encodeItems items = .ok (encode (values.map Value.datum)) := by
  have hd := (parseList_sound hs).legible
  have ht : List.Forall₂ HasType (declarations.map Named.item) values := hv.imp fun _ _ h => h.1
  have he : ∀ type ∈ declarations.map Named.item, type.hasEmptyTuple = false := by
    rw [List.forall_mem_map]
    exact fun d hm => Descriptor.hasEmptyTuple_of_proper d.item
      (Descriptor.expressible_of_legible d.item (Descriptor.allLegible_iff.1 hd d hm).2)
  have hp := Descriptor.allProper_of_allLegible declarations hd
  rw [Descriptor.shapes_eq_map] at hp
  have hr := decode_encode (admitsAll_of_hasType ht) hp hl
  obtain ⟨hi, hm⟩ := items_of_values hv
  refine ⟨_, (decodeFields_eq_ok_iff hs).2 ⟨values, (decodeValues_encode_iff ht).2 ⟨he, hr⟩, rfl⟩, ?_⟩
  refine encodeItems_eq_ok_iff.2 ⟨fun i hm => ?_, ?_⟩
  · exact (hi i hm).1.check_eq_ok_iff.2 (hi i hm).2
  · conv => rhs; rw [← hm, List.map_map]
    rfl

/-- Members of a tuple with tails are not what the schema of its fields reads from its encoding. -/
theorem decodeFields_tuple_ne {members : List Datum} (hm : Datum.anyDynamic members = true)
    (h : decodeFields { strict := true } schema (encode [.tuple members]) = .ok items) :
    items.map (fun i => i.value.datum) ≠ members := by
  obtain ⟨-, -, he⟩ := decodeFields_sound h
  intro hn
  have hl := congrArg List.length (he rfl)
  rw [encode_tuple_length hm, hn] at hl
  omega

end Decoding

section Publishing

variable {arguments : List Argument} {payload : Bytes}

def declared (arguments : List Argument) : List Declaration :=
  arguments.map fun a => Declaration.unnamed a.type.descriptor

/-- Whether the only argument is a record with tails. -/
def LoneDynamicRecord (arguments : List Argument) : Prop :=
  ∃ a fields, arguments = [a] ∧ a.type.descriptor = .tuple fields ∧
    a.type.descriptor.isDynamic = true

theorem legible_declared (ht : ∀ a ∈ arguments, a.type.Publishable) :
    Descriptor.AllLegible (declared arguments) := by
  rw [Descriptor.allLegible_iff, declared, List.forall_mem_map]
  exact fun a ha => ⟨accepts_nil _, a.type.legible (ht a ha)⟩

theorem parse_schemaOf (ht : ∀ a ∈ arguments, a.type.Publishable) :
    Schema.parse (schemaOf arguments) = .ok (Declaration.unwrapped (declared arguments)) :=
  parse_format_of_legible (legible_declared ht)

theorem conforms_of_pack (hp : pack arguments = .ok payload) :
    ∃ values, List.Forall₂ (fun a v => Argument.toValue a = .ok v) arguments values ∧
      List.Forall₂ Conforms ((declared arguments).map Named.item) values ∧
      encode (values.map Value.datum) = payload := by
  obtain ⟨values, hv, he⟩ := pack_eq_ok_iff.1 hp
  refine ⟨values, hv, ?_, he⟩
  rw [declared, List.map_map, List.forall₂_map_left_iff]
  exact hv.imp fun a v h => HostType.encode_sound a.type h

theorem declared_eq_lone_iff {fields : List Declaration} :
    declared arguments = [Declaration.unnamed (.tuple fields)] ↔
      ∃ a, arguments = [a] ∧ a.type.descriptor = .tuple fields := by
  rw [declared, List.map_eq_singleton_iff]
  simp [Declaration.unnamed]

theorem members_of_conforms {fields : List Declaration} {values : List Value}
    (h : List.Forall₂ Conforms [Descriptor.tuple fields] values)
    (hl : (Descriptor.tuple fields).Legible) :
    ∃ members : List Value, List.Forall₂ Conforms (fields.map Named.item) members ∧
      values.map Value.datum = [.tuple (members.map Value.datum)] ∧
      Datum.anyDynamic (members.map Value.datum) = (Descriptor.tuple fields).isDynamic := by
  cases h with
  | cons h hs =>
    cases hs
    obtain ⟨ht, hr⟩ := h
    cases ht with
    | @tuple _ tuple hs =>
      obtain ⟨hc, hd⟩ := hs.conforms hr
      have hp := Descriptor.allProper_of_allLegible fields hl.2.2
      refine ⟨tuple.map Named.item, hc, ?_, ?_⟩
      · rw [List.map_singleton, Value.datum, hd]
      · rw [hd, anyDynamic_eq_of_proper hs.admitsAll hp, Descriptor.anyDynamic_shapes]
        rfl

/-- A payload is decoded under the schema that is published for its arguments, and encoded to the
    same bytes again. Only a record with tails that is alone needs parentheses around the text. -/
theorem decodeFields_schemaOf (hp : pack arguments = .ok payload) (hl : payload.length < 2 ^ 32)
    (ht : ∀ a ∈ arguments, a.type.Publishable) :
    (¬ LoneDynamicRecord arguments →
        ∃ items, decodeFields { strict := true } (schemaOf arguments) payload = .ok items ∧
          encodeItems items = .ok payload) ∧
      (LoneDynamicRecord arguments →
        (∃ items,
          decodeFields { strict := true } ("(" ++ schemaOf arguments ++ ")") payload = .ok items ∧
            encodeItems items = .ok payload) ∧
        ∀ items members,
          decodeFields { strict := true } (schemaOf arguments) payload = .ok items →
          collect Argument.toDatum 0 arguments = .ok [.tuple members] →
          items.map (fun i => i.value.datum) ≠ members) := by
  obtain ⟨values, hv, hc, rfl⟩ := conforms_of_pack hp
  have hs := parse_schemaOf ht
  have hd := legible_declared ht
  constructor
  · intro hn
    by_cases hw : ∃ fields, declared arguments = [Declaration.unnamed (.tuple fields)]
    · obtain ⟨fields, hw⟩ := hw
      obtain ⟨a, ha, hf⟩ := declared_eq_lone_iff.1 hw
      have hi : (Descriptor.tuple fields).isDynamic = false := by
        rw [← hf, ← Bool.not_eq_true]
        exact fun hy => hn ⟨a, fields, ha, hf, hy⟩
      rw [hw] at hs hc hd
      rw [Declaration.unwrapped_lone] at hs
      obtain ⟨members, hm, he, hy⟩ := members_of_conforms hc hd.1.2
      rw [he, encode_tuple_inline (hy.trans hi)] at hl ⊢
      exact decodeFields_encode hs hm hl
    · push Not at hw
      rw [Declaration.unwrapped_of_not_lone hw] at hs
      exact decodeFields_encode hs hc hl
  · rintro ⟨a, fields, ha, hf, hy⟩
    have hw := declared_eq_lone_iff.2 ⟨a, ha, hf⟩
    have hb : schemaOf arguments = Schema.format (declared arguments) := rfl
    rw [hw] at hc hd hb
    refine ⟨?_, fun items members hi hx => ?_⟩
    · rw [hb]
      exact decodeFields_encode (parse_parenthesized hd) hc hl
    · rw [collect_toDatum_eq_ok_iff.2 ⟨values, hv, rfl⟩, Except.ok.injEq] at hx
      obtain ⟨found, -, he, hm⟩ := members_of_conforms hc hd.1.2
      rw [he] at hi hx
      cases hx
      exact decodeFields_tuple_ne (hm.trans (hf ▸ hy)) hi

def like (liked : Bool) (note : String) : Argument where
  type := .record "Like" [⟨"liked", .scalar .bool⟩, ⟨"note", .scalar .string⟩]
  value := (liked, note, ())

def likeDatum (liked : Bool) (note : String) : Datum := .tuple [.bool liked, .string note]

theorem like_publishable (liked : Bool) (note : String) : (like liked note).type.Publishable :=
  ⟨nofun, ⟨List.all_eq_true.1 rfl, trivial⟩, ⟨List.all_eq_true.1 rfl, trivial⟩, trivial⟩

set_option maxRecDepth 4000 in
theorem decodeFields_schemaOf_likes :
    pack [like true "gm", like false "né"] =
        .ok (encode [likeDatum true "gm", likeDatum false "né"]) ∧
      ∃ items, decodeFields { strict := true } (schemaOf [like true "gm", like false "né"])
          (encode [likeDatum true "gm", likeDatum false "né"]) = .ok items ∧
        encodeItems items = .ok (encode [likeDatum true "gm", likeDatum false "né"]) := by
  have hp : pack [like true "gm", like false "né"] =
      .ok (encode [likeDatum true "gm", likeDatum false "né"]) := rfl
  have hl : (encode [likeDatum true "gm", likeDatum false "né"]).length < 2 ^ 32 := by
    decide +kernel
  have ht : ∀ a ∈ [like true "gm", like false "né"], a.type.Publishable := by
    simp [like_publishable]
  exact ⟨hp, (decodeFields_schemaOf hp hl ht).1 (by simp [LoneDynamicRecord])⟩

set_option maxRecDepth 4000 in
/-- Strict decoding refuses the payload of a record under the text that is published for it. -/
theorem not_decodeFields_schemaOf :
    (like true "gm").type.Publishable ∧ schemaOf [like true "gm"] = "bool liked, string note" ∧
      pack [like true "gm"] = .ok (encode [likeDatum true "gm"]) ∧
      (encode [likeDatum true "gm"]).length < 2 ^ 32 ∧
      decodeFields { strict := true } "bool liked, string note" (encode [likeDatum true "gm"]) =
        .error (.decoding (.abi .invalidData)) := by
  have ht := like_publishable true "gm"
  have hs : schemaOf [like true "gm"] = "bool liked, string note" :=
    String.toList_inj.1 (by decide)
  have hp := parse_schemaOf (List.forall_mem_singleton.2 ht)
  rw [hs] at hp
  refine ⟨ht, hs, rfl, by decide +kernel, ?_⟩
  rw [decodeFields, hp]
  rfl

end Publishing

end Codec

end Attest
