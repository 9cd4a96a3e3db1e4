import Attest.CommandLine
import Attest.Proofs.Address
import Attest.Proofs.Fields
import Attest.Proofs.Json.Reading
import Attest.Proofs.Schema.RoundTrip

set_option autoImplicit false

namespace Attest

open Abi

namespace Value

mutual

theorem toJson_plain (value : Value) : value.toJson.Plain := by
  cases value with
  | tuple fields => exact fieldsToJson_plain fields
  | fixedArray elements => exact elementsToJson_plain elements
  | array elements => exact elementsToJson_plain elements
  | _ => trivial

theorem fieldsToJson_plain (fields : List (Named Value)) :
    Json.PlainMembers (fieldsToJson fields) := by
  cases fields with
  | nil => trivial
  | cons field fields => exact ⟨toJson_plain field.item, fieldsToJson_plain fields⟩

theorem elementsToJson_plain (elements : List Value) :
    Json.PlainElements (elementsToJson elements) := by
  cases elements with
  | nil => trivial
  | cons value elements => exact ⟨toJson_plain value, elementsToJson_plain elements⟩

end

theorem elementsToJson_eq (elements : List Value) :
    elementsToJson elements = elements.map toJson := by
  induction elements with
  | nil => rfl
  | cons value elements ih => rw [elementsToJson, ih, List.map_cons]

end Value

theorem Value.elements_eq_of_toJson {type : Descriptor} {values others : List Value}
    (he : ∀ {v w : Value}, HasType type v → HasType type w → v.toJson = w.toJson → v = w)
    (hv : ∀ v ∈ values, HasType type v) (ho : ∀ v ∈ others, HasType type v)
    (h : Value.elementsToJson values = Value.elementsToJson others) : values = others := by
  rw [Value.elementsToJson_eq, Value.elementsToJson_eq] at h
  exact eq_of_map_eq (fun v hm w hn => he (hv v hm) (ho w hn)) h

mutual

theorem HasType.eq_of_toJson (type : Descriptor) {value other : Value} (hv : HasType type value)
    (ho : HasType type other) (h : value.toJson = other.toJson) : value = other := by
  cases hv with
  | address a =>
    cases ho with
    | address b => rw [Address.text_injective (Json.string.inj h)]
  | bool a =>
    cases ho with
    | bool b => rw [Json.bool.inj h]
  | string text =>
    cases ho with
    | string text => rw [Json.string.inj h]
  | fixedBytes hl =>
    cases ho with
    | fixedBytes hl =>
      rw [Text.hexMarked_injective (String.ofList_injective (Json.string.inj h))]
  | bytes data =>
    cases ho with
    | bytes data => rw [Text.hexMarked_injective (String.ofList_injective (Json.string.inj h))]
  | uint width n =>
    cases ho with
    | uint width m =>
      rw [BitVec.eq_of_toNat_eq
        (Text.decimal_injective (String.ofList_injective (Json.string.inj h)))]
  | uint256 n =>
    cases ho with
    | uint256 m =>
      rw [BitVec.eq_of_toNat_eq
        (Text.decimal_injective (String.ofList_injective (Json.string.inj h)))]
  | @tuple types fields hf =>
    cases ho with
    | tuple hg => rw [HaveTypes.eq_of_fieldsToJson types hf hg (Json.object.inj h)]
  | @fixedArray size element values hl hs =>
    cases ho with
    | fixedArray hm hg =>
      rw [Value.elements_eq_of_toJson (HasType.eq_of_toJson element) hs hg (Json.array.inj h)]
  | @array element values hs =>
    cases ho with
    | array hg =>
      rw [Value.elements_eq_of_toJson (HasType.eq_of_toJson element) hs hg (Json.array.inj h)]

theorem HaveTypes.eq_of_fieldsToJson (types : List Declaration) {fields others : List (Named Value)}
    (hf : HaveTypes types fields) (ho : HaveTypes types others)
    (h : Value.fieldsToJson fields = Value.fieldsToJson others) : fields = others := by
  cases hf with
  | nil =>
    cases ho
    rfl
  | @cons name type value types fields hv hs =>
    cases ho with
    | cons hw ht =>
      rw [Value.fieldsToJson, Value.fieldsToJson, List.cons.injEq, Prod.mk.injEq] at h
      rw [HasType.eq_of_toJson type hv hw h.1.2, HaveTypes.eq_of_fieldsToJson types hs ht h.2]

end

/-- The type is needed: numbers are printed as texts, which do not tell how wide they are. -/
example : (Value.string "7").toJson = (Value.uint 7).toJson := rfl

theorem Declaration.eq_of_render {d e : Declaration} (hd : d.Legible) (he : e.Legible)
    (h : d.render = e.render) : d = e := by
  have hs : Declaration.joined [d] = Declaration.joined [e] := by
    rw [Declaration.joined, Declaration.joined, List.map_singleton, List.map_singleton, h]
  have hp := Schema.parseList_joined_of_legible
    (Descriptor.allLegible_iff.2 (List.forall_mem_singleton.2 hd))
  rw [hs, Schema.parseList_joined_of_legible
    (Descriptor.allLegible_iff.2 (List.forall_mem_singleton.2 he))] at hp
  exact (List.cons.inj (Except.ok.inj hp)).1.symm

namespace Item

theorem toJson_plain (item : Item) : item.toJson.Plain :=
  ⟨trivial, trivial, item.value.toJson_plain, trivial⟩

theorem listToJson_plain (items : List Item) : (listToJson items).Plain := by
  change Json.PlainElements (items.map toJson)
  induction items with
  | nil => trivial
  | cons item items ih => exact ⟨item.toJson_plain, ih⟩

theorem eq_of_toJson {item other : Item} (hi : item.declaration.Legible)
    (ho : other.declaration.Legible) (hv : HasType item.type item.value)
    (hw : HasType other.type other.value) (h : item.toJson = other.toJson) : item = other := by
  obtain ⟨name, type, value⟩ := item
  obtain ⟨otherName, otherType, otherValue⟩ := other
  have hm := Json.object.inj h
  simp only [List.cons.injEq, Prod.mk.injEq, true_and, and_true] at hm
  obtain ⟨hn, ht, hj⟩ := hm
  cases Json.string.inj hn
  have hd : Declaration.render ⟨name, type⟩ = Declaration.render ⟨name, otherType⟩ := by
    rw [Declaration.render, Declaration.render, String.ofList_injective (Json.string.inj ht)]
  cases Declaration.eq_of_render hi ho hd
  have hx : value = otherValue := HasType.eq_of_toJson type hv hw hj
  rw [hx]

end Item

namespace Codec

/-- Items that two schemas describe and that are printed alike are the same items. -/
theorem decodeFields_eq_of_compact {policy other : Policy} {schema otherSchema : String}
    {data otherData : Bytes} {items others : List Item}
    (hi : decodeFields policy schema data = .ok items)
    (ho : decodeFields other otherSchema otherData = .ok others)
    (h : (Item.listToJson items).compact = (Item.listToJson others).compact) : items = others := by
  obtain ⟨hp, ht, -⟩ := decodeFields_sound hi
  obtain ⟨hq, hu, -⟩ := decodeFields_sound ho
  have hl := Descriptor.allLegible_iff.1 (Schema.parseList_sound hp).legible
  have hm := Descriptor.allLegible_iff.1 (Schema.parseList_sound hq).legible
  rw [List.forall_mem_map] at hl hm
  have hj := Json.eq_of_compact_eq (Item.listToJson_plain items) (Item.listToJson_plain others) h
  exact eq_of_map_eq
    (fun i hi j hj => Item.eq_of_toJson (hl i hi) (hm j hj) (ht i hi) (hu j hj))
    (Json.array.inj hj)

theorem data_eq_of_compact {policy other : Policy} {schema otherSchema : String}
    {data otherData : Bytes} {items others : List Item} (hp : policy.strict = true)
    (hq : other.strict = true) (hi : decodeFields policy schema data = .ok items)
    (ho : decodeFields other otherSchema otherData = .ok others)
    (h : (Item.listToJson items).compact = (Item.listToJson others).compact) :
    data = otherData := by
  obtain ⟨-, -, he⟩ := decodeFields_sound hi
  obtain ⟨-, -, hf⟩ := decodeFields_sound ho
  rw [← he hp, decodeFields_eq_of_compact hi ho h, hf hq]

end Codec

namespace CommandLine

theorem because_eq_ok {α ε : Type} {text : String} {message : ε → String} {x : Except ε α}
    {a : α} : because text message x = .ok a ↔ x = .ok a := by
  cases x <;> simp [because]

section Runs

variable {environment : Environment} {arguments : List String} {command : Command} {line : String}

theorem run_of_ok (hc : Command.ofArguments? arguments = some command)
    (h : command.run environment = .ok line) :
    run environment arguments = { code := 0, output := line ++ "\n" } := by
  rw [run, hc]
  simp only [h]

theorem run_code_eq_zero_iff (hc : Command.ofArguments? arguments = some command) :
    (run environment arguments).code = 0 ↔ ∃ line, command.run environment = .ok line := by
  constructor
  · intro h
    cases hr : command.run environment with
    | ok line => exact ⟨line, rfl⟩
    | error complaint =>
      rw [run, hc] at h
      simp only [hr] at h
      cases h
  · intro h
    obtain ⟨line, hl⟩ := h
    rw [run_of_ok hc hl]

theorem decode_eq_ok_iff {schema payload : String} {strict pretty : Bool} {limit : Option Nat} :
    (Command.decode schema payload strict limit pretty).run environment = .ok line ↔
      ∃ base data items, environmentPolicy environment = .ok base ∧
        readPayload payload = .ok data ∧
        Codec.decodeFields
          { strict := base.strict || strict, maxLength := limit <|> base.maxLength } schema data =
            .ok items ∧
        (if pretty then (Item.listToJson items).pretty else (Item.listToJson items).compact) =
          line := by
  simp only [Command.run, Result.bind_eq_ok, because_eq_ok, Result.pure_eq_ok]
  constructor
  · intro h
    obtain ⟨base, hb, data, hr, items, hd, hl⟩ := h
    exact ⟨base, data, items, hb, hr, hd, hl⟩
  · intro h
    obtain ⟨base, data, items, hb, hr, hd, hl⟩ := h
    exact ⟨base, hb, data, hr, items, hd, hl⟩

end Runs

/-- What is printed under a strict policy tells the payload: no two payloads have items with one
    text, and the command with its strict flag prints no line for two payloads. Neither the schemas
    nor the rest of the policies need be the same. -/
theorem payload_eq_of_printed :
    (∀ (policy other : Policy) (schema otherSchema : String) (data otherData : Bytes)
      (items others : List Item), policy.strict = true → other.strict = true →
      Codec.decodeFields policy schema data = .ok items →
      Codec.decodeFields other otherSchema otherData = .ok others →
      (Item.listToJson items).compact = (Item.listToJson others).compact → data = otherData) ∧
    (∀ (environment other : Environment) (arguments others : List String)
      (schema otherSchema payload otherPayload : String) (limit otherLimit : Option Nat),
      Command.ofArguments? arguments = some (.decode schema payload true limit false) →
      Command.ofArguments? others = some (.decode otherSchema otherPayload true otherLimit false) →
      (run environment arguments).code = 0 → (run other others).code = 0 →
      (run environment arguments).output = (run other others).output →
      ∃ data, readPayload payload = .ok data ∧ readPayload otherPayload = .ok data) := by
  constructor
  · intro policy other schema otherSchema data otherData items others hp hq hi ho h
    exact Codec.data_eq_of_compact hp hq hi ho h
  · intro environment other arguments others schema otherSchema payload otherPayload limit
      otherLimit hc hd hz hw h
    obtain ⟨line, hl⟩ := (run_code_eq_zero_iff hc).1 hz
    obtain ⟨otherLine, hm⟩ := (run_code_eq_zero_iff hd).1 hw
    rw [run_of_ok hc hl, run_of_ok hd hm] at h
    obtain ⟨base, data, items, -, hr, hi, rfl⟩ := decode_eq_ok_iff.1 hl
    obtain ⟨otherBase, otherData, otherItems, -, hs, ho, rfl⟩ := decode_eq_ok_iff.1 hm
    have he := Codec.data_eq_of_compact (Bool.or_true _) (Bool.or_true _) hi ho
      ((String.append_left_inj _).1 h)
    exact ⟨data, hr, he ▸ hs⟩

def marked : String := "0x00000000000000000000000000000000000000000000000000000000000000ff"

def unmarked : String := "00000000000000000000000000000000000000000000000000000000000000FF"

def markedRun : List String := ["decode", "--schema", "uint8 x", marked, "--strict"]

def unmarkedRun : List String :=
  ["decode", "--strict", "--schema=uint8 x", "--max-payload-len=32", unmarked]

theorem payload_eq_of_printed_byte :
    bigEndian 32 255 = Bytes.zeros 31 ++ [255] ∧
      ∃ data, readPayload marked = .ok data ∧ readPayload unmarked = .ok data := by
  have hd : ∀ limit, limit = none ∨ limit = some 32 →
      Codec.decodeFields { strict := true, maxLength := limit } "uint8 x" (bigEndian 32 255) =
        .ok [⟨"x", .uint .w8, .uint 255⟩] := by
    intro limit hl
    rw [Codec.decodeFields, Codec.parse_byteField]
    rcases hl with rfl | rfl <;> rfl
  have hm : (Command.decode "uint8 x" marked true none false).run (fun _ => none) =
      .ok (Item.listToJson [⟨"x", .uint .w8, .uint 255⟩]).compact :=
    decode_eq_ok_iff.2 ⟨{}, _, _, rfl, rfl, hd _ (.inl rfl), rfl⟩
  have hu : (Command.decode "uint8 x" unmarked true (some 32) false).run (fun _ => none) =
      .ok (Item.listToJson [⟨"x", .uint .w8, .uint 255⟩]).compact :=
    decode_eq_ok_iff.2 ⟨{}, _, _, rfl, rfl, hd _ (.inr rfl), rfl⟩
  have hc : Command.ofArguments? markedRun =
      some (.decode "uint8 x" marked true none false) := by decide +kernel
  have hk : Command.ofArguments? unmarkedRun =
      some (.decode "uint8 x" unmarked true (some 32) false) := by decide +kernel
  refine ⟨payload_eq_of_printed.1 _ _ _ _ _ _ _ _ rfl rfl (hd none (.inl rfl))
    (hd (some 32) (.inr rfl)) rfl, ?_⟩
  refine payload_eq_of_printed.2 (fun _ => none) (fun _ => none) markedRun unmarkedRun _ _ _ _ _ _
    hc hk ?_ ?_ ?_
  · rw [run_of_ok hc hm]
  · rw [run_of_ok hk hu]
  · rw [run_of_ok hc hm, run_of_ok hk hu]

end CommandLine

end Attest
