import Attest.Proofs.Fields

set_option autoImplicit false

/-!
# The standard encoding

The encoding of values as their types prescribe it: every number is a word of 32 bytes, the type
says which members of a tuple go to the tail, and the head of such a member holds the size of all
heads and of the tails in front of its own. The encoder sees data only, counts in words of which
four bytes are in use, and finds positions as it goes. Below `2 ^ 32` bytes both come to the same.
-/
namespace Attest

open Abi

namespace Standard

def word (n : Nat) : Bytes := bigEndian 32 n

def content (data : Bytes) : Bytes := word data.length ++ data.padRight

def head (members : List Part) (position : Nat) (member : Part) : Bytes :=
  if member.inTail then
    word ((members.map Part.headSize).sum + ((members.take position).flatMap Part.tail).length)
  else member.body

def joined (members : List Part) : Bytes :=
  (members.mapIdx (head members)).flatten ++ members.flatMap Part.tail

mutual

def encoding : Descriptor → Value → Bytes
  | .address, .address a => Bytes.zeros 12 ++ a.bytes.toList
  | .bool, .bool value => word value.toNat
  | .uint _, .uint n | .uint256, .uint n => word n.toNat
  | .fixedBytes _, .fixedBytes data => data.padRight
  | .string, .string text => content (Text.utf8 text.toList)
  | .bytes, .bytes data => content data
  | .tuple types, .tuple fields => joined (members types fields)
  | .fixedArray _ element, .fixedArray values =>
    joined (values.map fun v => ⟨element.isDynamic, encoding element v⟩)
  | .array element, .array values =>
    word values.length ++ joined (values.map fun v => ⟨element.isDynamic, encoding element v⟩)
  | _, _ => []

def members : List Declaration → List (Named Value) → List Part
  | ⟨_, type⟩ :: types, ⟨_, value⟩ :: fields =>
    ⟨type.isDynamic, encoding type value⟩ :: members types fields
  | _, _ => []

end

/-- The encoding of items as the fields of one tuple. -/
def payload (items : List Item) : Bytes :=
  encoding (.tuple (items.map Item.declaration)) (.tuple (items.map fun i => ⟨i.name, i.value⟩))

/-! ### Words -/

theorem word_length (n : Nat) : (word n).length = 32 := bigEndian_length 32 n

theorem word_eq_sizeWord {n : Nat} (h : n < 2 ^ 32) : word n = sizeWord n := by
  have hz : n / 256 ^ 4 = 0 := Nat.div_eq_of_lt h
  rw [word, bigEndian_add 28 4, hz, bigEndian_zero, sizeWord]

theorem word_bool (value : Bool) :
    word value.toNat = Bytes.zeros 31 ++ [if value then 1 else 0] := by
  cases value <;> rfl

theorem content_length (data : Bytes) : (content data).length = (sized data).length := by
  rw [content, sized, List.length_append, List.length_append, word_length, sizeWord_length]

theorem content_eq_sized {data : Bytes} (h : (sized data).length < 2 ^ 32) :
    content data = sized data := by
  rw [sized, List.length_append, Bytes.padRight_length] at h
  rw [content, sized, word_eq_sizeWord (by omega)]

/-! ### Heads and tails -/

theorem headsSize_eq_sum (parts : List Part) : headsSize parts = (parts.map Part.headSize).sum := by
  induction parts with
  | nil => rfl
  | cons part parts ih => rw [headsSize, ih, List.map_cons, List.sum_cons]

theorem head_length (all : List Part) (position : Nat) (part : Part) :
    (head all position part).length = part.headSize := by
  cases h : part.inTail <;> simp [head, Part.headSize, h, word_length]

theorem joined_length (parts : List Part) : (joined parts).length = (frame parts).length := by
  have hh : (parts.mapIdx (head parts)).map List.length = parts.map Part.headSize :=
    List.ext_getElem (by simp) fun i hi hj => by simp [head_length]
  rw [joined, frame, List.length_append, List.length_append, heads_length, headsSize_eq_sum,
    List.length_flatten, hh]

/-- The position that is counted up from head to head is the size of all heads and of the tails in
    front. -/
theorem flatten_head_eq_heads {all front parts : List Part} (he : all = front ++ parts)
    (hl : (frame all).length < 2 ^ 32) :
    (parts.mapIdx fun i part => head all (front.length + i) part).flatten =
      heads (headsSize all + (front.flatMap Part.tail).length) parts := by
  induction parts generalizing front with
  | nil => rfl
  | cons part parts ih =>
    have hf : all = (front ++ [part]) ++ parts := by rw [he, List.append_assoc]; rfl
    have ht := ih hf
    simp only [List.flatMap_append, List.flatMap_singleton, List.length_append,
      List.length_singleton, Nat.add_assoc, Nat.add_comm 1] at ht
    rw [List.mapIdx_cons, List.flatten_cons, ht, heads, head, Nat.add_zero]
    cases hd : part.inTail
    · simp [Part.tail, hd]
    · have hk : all.take front.length = front := by rw [he, List.take_left]
      have hb : headsSize all + (front.flatMap Part.tail).length < 2 ^ 32 := by
        rw [frame, List.length_append, heads_length, he, List.flatMap_append,
          List.length_append, ← he] at hl
        omega
      rw [if_pos rfl, if_pos rfl, hk, ← headsSize_eq_sum, word_eq_sizeWord hb, Part.tail, hd,
        if_pos rfl, Nat.add_assoc]

theorem joined_eq_frame {parts : List Part} (hl : (frame parts).length < 2 ^ 32) :
    joined parts = frame parts := by
  have hh := flatten_head_eq_heads (List.nil_append parts).symm hl
  simp only [List.length_nil, Nat.zero_add, List.flatMap_nil, Nat.add_zero] at hh
  rw [joined, frame, hh]

/-! ### Members laid out by type and by data -/

/-- Whether a member of the standard encoding is the part that the encoder makes of it, but for
    words that do not hold what they should. -/
structure Matches (member part : Part) : Prop where
  inTail : member.inTail = part.inTail
  length : member.body.length = part.body.length
  body : part.body.length < 2 ^ 32 → member.body = part.body

theorem Matches.size_eq {member part : Part} (h : Matches member part) :
    member.size = part.size := by
  rw [Part.size_eq, Part.size_eq, h.inTail, h.length]

theorem Matches.eq {member part : Part} (h : Matches member part) (hl : part.size < 2 ^ 32) :
    member = part := by
  obtain ⟨inTail, body⟩ := member
  obtain ⟨ht, -, hb⟩ := h
  rw [Part.size_eq] at hl
  cases ht
  cases hb (by omega)
  rfl

section Members

variable {all parts : List Part} (h : List.Forall₂ Matches all parts)

include h

theorem sizes_eq_of_matches : all.map Part.size = parts.map Part.size := by
  induction h with
  | nil => rfl
  | cons hm _ ih => rw [List.map_cons, List.map_cons, hm.size_eq, ih]

theorem eq_of_matches (hl : (parts.map Part.size).sum < 2 ^ 32) : all = parts := by
  induction h with
  | nil => rfl
  | cons hm _ ih =>
    rw [List.map_cons, List.sum_cons] at hl
    rw [hm.eq (by omega), ih (by omega)]

theorem joined_length_of_matches : (joined all).length = (frame parts).length := by
  rw [joined_length, frame_length, frame_length, sizes_eq_of_matches h]

theorem joined_eq_of_matches (hl : (frame parts).length < 2 ^ 32) : joined all = frame parts := by
  have he := eq_of_matches h (by rw [← frame_length]; exact hl)
  rw [he, joined_eq_frame hl]

end Members

theorem elements_match {element : Descriptor} {values : List Value}
    (h : ∀ v ∈ values,
      Matches ⟨element.isDynamic, encoding element v⟩ (element.shape.part v.datum)) :
    List.Forall₂ Matches (values.map fun v => ⟨element.isDynamic, encoding element v⟩)
      ((Value.elementData values).map element.shape.part) := by
  rw [Value.elementData_eq, List.map_map, List.forall₂_map_left_iff, List.forall₂_map_right_iff,
    List.forall₂_same]
  exact h

mutual

theorem encoding_matches (type : Descriptor) {value : Value} (hp : type.Expressible)
    (h : Admits type.shape value.datum) :
    Matches ⟨type.isDynamic, encoding type value⟩ (type.shape.part value.datum) := by
  cases type with
  | tuple types =>
    cases value with
    | tuple fields =>
      cases h with
      | tuple h =>
        have hm := members_match types hp.2 h
        exact ⟨(Descriptor.isDynamic_shape _).symm, joined_length_of_matches hm,
          joined_eq_of_matches hm⟩
    | _ => cases h
  | fixedArray size element =>
    cases value with
    | fixedArray values =>
      cases h with
      | fixedArray h =>
        have ha := (admitsAll_replicate_iff.1 h).2
        rw [Value.elementData_eq, List.forall_mem_map] at ha
        have hm := elements_match fun v hv => encoding_matches element hp.2 (ha v hv)
        exact ⟨(Descriptor.isDynamic_shape _).symm, joined_length_of_matches hm,
          joined_eq_of_matches hm⟩
    | _ => cases h
  | array element =>
    cases value with
    | array values =>
      cases h with
      | array h =>
        have he : element.shape.Proper := hp
        have ha := (admitsAll_replicate_iff.1 h).2
        rw [Value.elementData_eq, List.forall_mem_map] at ha
        have hm := elements_match fun v hv => encoding_matches element hp (ha v hv)
        have hn : (Value.elementData values).length = values.length := by
          rw [Value.elementData_eq, List.length_map]
        have hb : (element.shape.array.part (.array (Value.elementData values))).body =
            sizeWord values.length ++
              frame ((Value.elementData values).map element.shape.part) := by
          rw [← hn]
          rfl
        refine ⟨rfl, ?_, fun hl => ?_⟩
        · change (word values.length ++ joined _).length = _
          refine Eq.trans ?_ (congrArg List.length hb).symm
          rw [List.length_append, List.length_append, joined_length_of_matches hm, word_length,
            sizeWord_length]
        · -- Each element takes a word, so the bytes bound the number of elements as well.
          change (element.shape.array.part (.array (Value.elementData values))).body.length <
            2 ^ 32 at hl
          have hw := h.words_le_size (Shape.allProper_replicate he _)
          have hc : values.length < 2 ^ 32 := by
            rw [array_body_length] at hl
            omega
          rw [hb, List.length_append] at hl
          refine Eq.trans ?_ hb.symm
          rw [← joined_eq_of_matches hm (by omega), ← word_eq_sizeWord hc]
          rfl
    | _ => cases h
  | bool =>
    cases value with
    | bool b => exact ⟨rfl, congrArg List.length (word_bool b), fun _ => word_bool b⟩
    | _ => cases h
  | string =>
    cases value with
    | string text => exact ⟨rfl, content_length _, content_eq_sized⟩
    | _ => cases h
  | bytes =>
    cases value with
    | bytes data => exact ⟨rfl, content_length _, content_eq_sized⟩
    | _ => cases h
  | address =>
    cases value with
    | address a => exact ⟨rfl, rfl, fun _ => rfl⟩
    | _ => cases h
  | uint width =>
    cases value with
    | uint n => exact ⟨rfl, rfl, fun _ => rfl⟩
    | _ => cases h
  | uint256 =>
    cases value with
    | uint n => exact ⟨rfl, rfl, fun _ => rfl⟩
    | _ => cases h
  | fixedBytes size =>
    cases value with
    | fixedBytes data => exact ⟨rfl, rfl, fun _ => rfl⟩
    | _ => cases h

theorem members_match (types : List Declaration) {fields : List (Named Value)}
    (hp : Shape.AllProper (Descriptor.shapes types))
    (h : AdmitsAll (Descriptor.shapes types) (Value.fieldData fields)) :
    List.Forall₂ Matches (members types fields)
      (Shape.layoutParts (Descriptor.shapes types) (Value.fieldData fields)) := by
  cases types with
  | nil => exact .nil
  | cons declaration types =>
    cases fields with
    | nil => cases h
    | cons field fields =>
      cases h with
      | cons h hs =>
        exact .cons (encoding_matches declaration.item hp.1 h) (members_match types hp.2 hs)

end

end Standard

namespace Codec

/-- Items are encoded to the standard encoding of one tuple. Beyond `2 ^ 32` bytes the words of
    positions may differ, and the length does not. -/
theorem encodeItems_standard (items : List Item) (ht : ∀ i ∈ items, i.type.Expressible)
    (hc : ∀ i ∈ items, i.value.check i.type = .ok ()) :
    ∃ data, encodeItems items = .ok data ∧ data.length = (Standard.payload items).length ∧
      (data.length < 2 ^ 32 → data = Standard.payload items) := by
  have hs : Descriptor.shapes (items.map Item.declaration) =
      (items.map Item.type).map Descriptor.shape := by
    rw [Descriptor.shapes_eq_map, List.map_map, List.map_map, List.map_map]
    rfl
  have hd : Value.fieldData (items.map fun i => (⟨i.name, i.value⟩ : Named Value)) =
      items.map fun i => i.value.datum := by
    rw [Value.fieldData_eq, List.map_map]
    rfl
  have ha := admitsAll_of_check hc
  have hp := allProper_of_expressible ht
  have he := encode_eq_layoutAll ha (ha.allAligned hp)
  rw [← hs] at hp
  rw [← hs, ← hd] at ha he
  have hm := Standard.members_match _ hp ha
  refine ⟨_, encodeItems_eq_ok_iff.2 ⟨hc, rfl⟩, ?_, fun hl => ?_⟩
  · rw [← hd, he]
    exact (Standard.joined_length_of_matches hm).symm
  · rw [← hd, he] at hl ⊢
    exact (Standard.joined_eq_of_matches hm hl).symm

theorem encodeItems_standard_report : (∀ i ∈ reportItems, i.type.Expressible) ∧
    (∀ i ∈ reportItems, i.value.check i.type = .ok ()) ∧
      encodeItems reportItems = .ok (Standard.payload reportItems) := by
  have ht : ∀ i ∈ reportItems, i.type.Expressible := by
    simp [reportItems, Descriptor.Expressible, Descriptor.shape, Descriptor.shapes, Shape.Proper,
      Shape.AllProper]
  have hc : ∀ i ∈ reportItems, i.value.check i.type = .ok () := by
    intro i hi
    simp only [reportItems, List.mem_cons, List.not_mem_nil, or_false] at hi
    rcases hi with rfl | rfl <;> rfl
  obtain ⟨data, he, hl, hs⟩ := encodeItems_standard reportItems ht hc
  have hn : (Standard.payload reportItems).length < 2 ^ 32 := by decide +kernel
  exact ⟨ht, hc, hs (hl ▸ hn) ▸ he⟩

example : Standard.payload [⟨"", .string, .string "gm"⟩, ⟨"", .bool, .bool true⟩] =
    Standard.word 64 ++ Standard.word 1 ++ (Standard.word 2 ++ Bytes.padRight [103, 109]) := by
  decide +kernel

end Codec

end Attest
