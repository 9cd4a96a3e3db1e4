import Attest.Proofs.Schema.RoundTrip

set_option autoImplicit false

namespace Attest

open Schema Text

namespace Schema

variable {text : List Char} {type : Descriptor}

theorem parseType_eq_ok_iff : parseType text = .ok type ↔ TextOf (trim text) type := by
  rw [parseType, Result.bind_eq_ok]
  constructor
  · intro h
    obtain ⟨found, hf, h⟩ := h
    cases found with
    | plain => exact .plain h
    | group inner rest =>
      obtain ⟨members, hm, h⟩ := Result.bind_eq_ok.1 h
      obtain ⟨tuple, ht, h⟩ := Result.bind_eq_ok.1 h
      obtain ⟨hn, rfl⟩ := tupleOf_eq_ok_iff.1 ht
      obtain ⟨he, hp⟩ := form_group_iff.1 hf
      rw [he]
      exact .group hm hn hp (suffixed_eq_ok_iff.1 h)
  · intro h
    generalize ht : trim text = found at h
    cases h with
    | plain h => exact ⟨.plain, form_of_head (plainType_characters h).2.2, h⟩
    | @group inner rest members type hm hn hp hs =>
      have htu := tupleOf_eq_ok_iff.2 ⟨hn, rfl⟩
      refine ⟨.group inner rest, form_group_iff.2 ⟨rfl, hp⟩, ?_⟩
      simp only [bind, Except.bind, hm, htu]
      exact suffixed_eq_ok_iff.2 hs

theorem parseType_sound (h : parseType text = .ok type) : type.Legible :=
  (parseType_eq_ok_iff.1 h).legible

theorem parseType_render (h : type.Legible) : parseType type.render = .ok type := by
  have ht := textOf_render h (parseList_core type h)
  obtain ⟨-, hf, hl⟩ := ht.ends
  rw [parseType_eq_ok_iff, trim_eq_self hf hl]
  exact ht

end Schema

namespace Descriptor

/-- A type is read back from its text exactly if a schema can declare something of it. -/
theorem ofText_text_iff {type : Descriptor} : ofText type.text = .ok type ↔ type.Legible := by
  rw [ofText, text, String.toList_ofList]
  exact ⟨parseType_sound, parseType_render⟩

mutual

/-- Whether sizes are in range, tuples have fields, and no name has a blank, a comma or a bracket. -/
def Plain : Descriptor → Prop
  | .fixedBytes size => 1 ≤ size ∧ size ≤ 32
  | .tuple fields => fields ≠ [] ∧ AllPlain fields
  | .fixedArray size element => (1 ≤ size ∧ size ≤ sizeMax) ∧ element.Plain
  | .array element => element.Plain
  | _ => True

def AllPlain : List Declaration → Prop
  | [] => True
  | ⟨name, type⟩ :: fields => ((∀ c ∈ name.toList, isPlain c = true) ∧ type.Plain) ∧ AllPlain fields

end

theorem accepts_of_plain (type : Descriptor) {name : List Char}
    (h : ∀ c ∈ name, isPlain c = true) : type.Accepts name := by
  refine ⟨unbroken_of_plain h, .of_ignores fun c hc => brackets_ignores_plain (h c hc), ?_⟩
  intro _ hh
  cases h '[' (List.mem_of_mem_head? hh)

mutual

theorem Plain.legible {type : Descriptor} (h : type.Plain) : type.Legible := by
  cases type with
  | fixedBytes size => exact h
  | tuple fields =>
    obtain ⟨hl, hp⟩ := AllPlain.allLegible h.2
    exact ⟨h.1, .of_ignores fun c hc => parentheses_ignores_plain (hp c hc), hl⟩
  | fixedArray size element =>
    have he : element.Plain := h.2
    exact ⟨h.1, he.legible⟩
  | array element =>
    have he : element.Plain := h
    exact he.legible
  | _ => trivial

theorem AllPlain.allLegible {fields : List Declaration} (h : AllPlain fields) :
    AllLegible fields ∧ ∀ c ∈ Declaration.names fields, isPlain c = true := by
  cases fields with
  | nil => exact ⟨trivial, nofun⟩
  | cons field fields =>
    obtain ⟨⟨hn, ht⟩, hs⟩ := h
    obtain ⟨hl, hp⟩ := AllPlain.allLegible hs
    exact ⟨⟨⟨accepts_of_plain field.item hn, ht.legible⟩, hl⟩, List.forall_mem_append.2 ⟨hn, hp⟩⟩

end

/-- Types with plain names are read back from their text, however they are nested. -/
theorem ofText_text {type : Descriptor} (h : type.Plain) : ofText type.text = .ok type :=
  ofText_text_iff.2 h.legible

def keyring : Descriptor :=
  .array (.fixedArray 18446744073709551615 (.tuple [⟨"keys", .array (.fixedBytes 32)⟩,
    ⟨"né", .fixedArray 2 (.tuple [⟨"x", .uint .w8⟩, ⟨"", .bool⟩])⟩]))

theorem ofText_text_keyring : keyring.Plain ∧
    keyring.text = "(bytes32[] keys, (uint8 x, bool)[2] né)[18446744073709551615][]" ∧
    ofText keyring.text = .ok keyring := by
  have hn : ∀ c ∈ "keysnéx".toList, isPlain c = true := List.all_eq_true.1 rfl
  have hp : keyring.Plain := by
    simpa [keyring, Plain, AllPlain, sizeMax, and_assoc] using hn
  exact ⟨hp, String.toList_inj.1 (by decide), ofText_text hp⟩

end Descriptor

end Attest
