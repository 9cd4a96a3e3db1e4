import Mathlib.Data.List.Nodup
import Attest.Proofs.Address
import Attest.Proofs.Json.Reading
import Attest.Proofs.Uid
import Attest.Registry

set_option autoImplicit false

namespace Attest

namespace Json

section Members

variable {members : List (String × Json)}

theorem single?_of_mem {name : String} {value : Json} (hn : (members.map Prod.fst).Nodup)
    (hm : (name, value) ∈ members) : single? name members = some value := by
  have hf : members.filter (·.1 == name) = [(name, value)] := by
    induction members with
    | nil => cases hm
    | cons member members ih =>
      rw [List.map_cons, List.nodup_cons] at hn
      rcases List.mem_cons.1 hm with rfl | hm
      · have hr : members.filter (·.1 == name) = [] := by
          rw [List.filter_eq_nil_iff]
          intro m hm h
          exact hn.1 (List.mem_map.2 ⟨m, hm, beq_iff_eq.1 h⟩)
        rw [List.filter_cons, if_pos (beq_self_eq_true name), hr]
      · have hne : ¬ (member.1 == name) = true := by
          intro h
          exact hn.1 (List.mem_map.2 ⟨(name, value), hm, (beq_iff_eq.1 h).symm⟩)
        rw [List.filter_cons, if_neg hne]
        exact ih hn.2 hm
  rw [single?, hf]

theorem mapM_single? {front : List (String × Json)} (hn : (members.map Prod.fst).Nodup)
    (hf : front ⊆ members) :
    (front.map Prod.fst).mapM (fun name => single? name members) = some (front.map Prod.snd) := by
  induction front with
  | nil => rfl
  | cons member front ih =>
    rw [List.cons_subset] at hf
    rw [List.map_cons, List.mapM_cons, single?_of_mem hn hf.1, ih hf.2]
    rfl

theorem members?_object (hn : (members.map Prod.fst).Nodup) :
    (object members).members? (members.map Prod.fst) = some (members.map Prod.snd) :=
  mapM_single? hn (List.Subset.refl members)

end Members

theorem asUInt64?_natural (n : UInt64) : (natural n.toNat).asUInt64? = some n := by
  rw [asUInt64?, if_pos n.toNat_lt_size, UInt64.ofNat_toNat]

section Rewriting

variable {α : Type} {toJson : α → Json} {ofJson? : Json → Option α}

theorem readAs_compact {a : α} (hp : (toJson a).Plain) (hr : ofJson? (toJson a) = some a) :
    readAs ofJson? (toJson a).compact = some a := by
  rw [readAs, read_compact hp]
  exact hr

theorem readAs_rewritten
    (hr : ∀ a, readAs ofJson? (toJson a).compact = some a) {text again : String}
    (h : (readAs ofJson? text).map (fun a => (toJson a).compact) = some again) :
    readAs ofJson? again = readAs ofJson? text := by
  obtain ⟨a, ha, rfl⟩ := Option.map_eq_some_iff.1 h
  rw [hr, ha]

end Rewriting

end Json

theorem Uid.ofJson?_toJson (u : Uid) : Uid.ofJson? u.toJson = some u := by
  change (Uid.ofText u.text).toOption = some u
  rw [Uid.ofText_written]
  rfl

theorem Address.ofJson?_toJson (a : Address) : Address.ofJson? a.toJson = some a :=
  a.ofText?_text

theorem Bytes.ofJson?_hexMarked (data : Bytes) :
    Bytes.ofJson? (.string (String.ofList (Text.hexMarked data))) = some data := by
  change (Text.readHex (Text.dropEitherMarker (String.ofList (Text.hexMarked data)).toList)).toOption
    = some data
  rw [String.toList_ofList, Text.hexMarked, Text.dropEitherMarker, Text.readHex_hex]
  rfl

namespace SchemaRecord

theorem toJson_plain (record : SchemaRecord) : record.toJson.Plain :=
  ⟨trivial, trivial, trivial, trivial, trivial⟩

theorem ofJson?_toJson (record : SchemaRecord) : ofJson? record.toJson = some record := by
  have hn : ["uid", "resolver", "revocable", "schema"].Nodup := by decide
  have hm : record.toJson.members? ["uid", "resolver", "revocable", "schema"] =
      some [record.uid.toJson, record.resolver.toJson, .bool record.revocable,
        .string record.schema] := Json.members?_object hn
  rw [ofJson?, hm]
  simp only [Option.bind_eq_bind, Option.bind_some, Uid.ofJson?_toJson, Address.ofJson?_toJson,
    Json.asBool?, Json.asString?, Option.pure_def]

theorem ofText?_text (record : SchemaRecord) : ofText? record.text = some record :=
  Json.readAs_compact record.toJson_plain record.ofJson?_toJson

/-- What a text becomes when it is read and the record is written. -/
def rewrite? (text : String) : Option String := (ofText? text).map SchemaRecord.text

end SchemaRecord

namespace Attestation

theorem toJson_plain (a : Attestation) : a.toJson.Plain :=
  ⟨trivial, trivial, trivial, trivial, trivial, trivial, trivial, trivial, trivial, trivial, trivial⟩

theorem ofJson?_toJson (a : Attestation) : ofJson? a.toJson = some a := by
  have hn : ["uid", "schema", "time", "expirationTime", "revocationTime", "refUid", "recipient",
      "attester", "revocable", "data"].Nodup := by decide
  have hm : a.toJson.members? ["uid", "schema", "time", "expirationTime", "revocationTime", "refUid",
      "recipient", "attester", "revocable", "data"] =
      some [a.uid.toJson, a.schema.toJson, .natural a.time.toNat, .natural a.expirationTime.toNat,
        .natural a.revocationTime.toNat, a.refUid.toJson, a.recipient.toJson, a.attester.toJson,
        .bool a.revocable, .string (String.ofList (Text.hexMarked a.data))] :=
    Json.members?_object hn
  rw [ofJson?, hm]
  simp only [Option.bind_eq_bind, Option.bind_some, Uid.ofJson?_toJson, Address.ofJson?_toJson,
    Json.asUInt64?_natural, Bytes.ofJson?_hexMarked, Json.asBool?, Option.pure_def]

theorem ofText?_text (a : Attestation) : ofText? a.text = some a :=
  Json.readAs_compact a.toJson_plain a.ofJson?_toJson

def rewrite? (text : String) : Option String := (ofText? text).map Attestation.text

end Attestation

/-- Every record is read from its text as it is. So what an accepted text is rewritten to is rewritten
    to itself, and a record answers alike before and after. -/
theorem records_survive :
    (∀ record : SchemaRecord, SchemaRecord.ofText? record.text = some record) ∧
    (∀ a : Attestation, Attestation.ofText? a.text = some a) ∧
    (∀ text again : String, SchemaRecord.rewrite? text = some again →
      SchemaRecord.rewrite? again = some again ∧
      (SchemaRecord.ofText? again).map SchemaRecord.isConsistent =
        (SchemaRecord.ofText? text).map SchemaRecord.isConsistent) ∧
    ∀ text again : String, Attestation.rewrite? text = some again →
      Attestation.rewrite? again = some again ∧
      (Attestation.ofText? again).map Attestation.isRevoked =
        (Attestation.ofText? text).map Attestation.isRevoked ∧
      (∀ now : UInt64, (Attestation.ofText? again).map (Attestation.isExpired · now) =
        (Attestation.ofText? text).map (Attestation.isExpired · now)) ∧
      ∀ (policy : Policy) (schema : String),
        (Attestation.ofText? again).map (Attestation.fields policy schema) =
          (Attestation.ofText? text).map (Attestation.fields policy schema) := by
  refine ⟨SchemaRecord.ofText?_text, Attestation.ofText?_text, ?_, ?_⟩
  · intro text again h
    have hr : SchemaRecord.ofText? again = SchemaRecord.ofText? text :=
      Json.readAs_rewritten SchemaRecord.ofText?_text h
    refine ⟨?_, by rw [hr]⟩
    rw [SchemaRecord.rewrite?, hr]
    exact h
  · intro text again h
    have hr : Attestation.ofText? again = Attestation.ofText? text :=
      Json.readAs_rewritten Attestation.ofText?_text h
    refine ⟨?_, by rw [hr], fun now => by rw [hr], fun policy schema => by rw [hr]⟩
    rw [Attestation.rewrite?, hr]
    exact h

/-- A record written as an array, with digits of both cases and no markers, a blank in the address and
    a character of the schema escaped. -/
theorem records_survive_array : ∃ text again : String,
    text ≠ again ∧ SchemaRecord.rewrite? text = some again ∧
      SchemaRecord.rewrite? again = some again := by
  let text := "[\"ABCDEFabcdefABCDEFabcdefABCDEFabcdefABCDEFabcdefABCDEFabcdef0123\",\n" ++
    "\"0x00112233445566778899AABBCCDDEEFF 1122330\", false, \"bool \\u006cike\"]"
  let again := "\x7b\"uid\":\"0xabcdefabcdefabcdefabcdefabcdefabcdefabcdefabcdefabcdefabcdef0123\"," ++
    "\"resolver\":\"0x00112233445566778899aabbccddeeff11223300\"," ++
    "\"revocable\":false,\"schema\":\"bool like\"\x7d"
  have h : SchemaRecord.rewrite? text = some again := by
    decide +kernel
  exact ⟨text, again, by decide +kernel, h, (records_survive.2.2.1 text again h).1⟩

end Attest
