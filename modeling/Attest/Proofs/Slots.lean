import Attest.Proofs.Codec
import Attest.Proofs.Host.Conversion
import Attest.Proofs.Host.Descriptor
import Attest.Proofs.Injection

set_option autoImplicit false

namespace Attest

open Abi

namespace Slot

variable {slot written : Slot} {value : Value}

theorem takes_iff (h : HasType slot.type.descriptor value) :
    slot.Takes value written ↔ written.type = slot.type ∧ written.toValue = .ok value := by
  constructor
  · intro ht
    obtain ⟨x, hx, rfl⟩ := ht
    exact ⟨rfl, (HostType.decode_eq_ok_iff slot.type h x).1 hx⟩
  · obtain ⟨⟨type, x⟩, owned⟩ := written
    intro ht
    obtain ⟨rfl, hx⟩ := ht
    exact ⟨x, (HostType.decode_eq_ok_iff slot.type h x).2 hx, rfl⟩

end Slot

namespace Codec

variable {policy : Policy} {data : Bytes} {slots targets written : List Slot} {values : List Value}

theorem takes_all_iff
    (h : List.Forall₂ (fun t v => HasType t.type.descriptor v) targets values) :
    List.Forall₂ (fun p w => Slot.Takes p.1 p.2 w) (targets.zip values) written ↔
      written.map (·.type) = targets.map (·.type) ∧
        List.Forall₂ (fun w v => w.toValue = .ok v) written values := by
  induction h generalizing written with
  | nil => simp
  | @cons t v targets values h _ ih =>
    rw [List.zip_cons_cons, List.forall₂_cons_left_iff]
    constructor
    · intro hx
      obtain ⟨w, ws, hw, hws, rfl⟩ := hx
      obtain ⟨ht, hv⟩ := (Slot.takes_iff h).1 hw
      obtain ⟨hts, hvs⟩ := ih.1 hws
      exact ⟨by rw [List.map_cons, List.map_cons, ht, hts], .cons hv hvs⟩
    · intro hx
      obtain ⟨ht, hv⟩ := hx
      cases hv with
      | @cons w _ ws _ hv hvs =>
        rw [List.map_cons, List.map_cons, List.cons.injEq] at ht
        exact ⟨w, ws, (Slot.takes_iff h).2 ⟨ht.1, hv⟩, ih.2 ⟨ht.2, hvs⟩, rfl⟩

/-- Values of the slots' descriptors are written exactly to contents that encode to them. -/
theorem inject_eq_ok_iff
    (h : List.Forall₂ HasType (targets.map (·.type.descriptor)) values) :
    inject values targets = (.ok (), written) ↔
      written.map (·.type) = targets.map (·.type) ∧
        List.Forall₂ (fun w v => w.toValue = .ok v) written values := by
  rw [List.forall₂_map_left_iff] at h
  rw [inject_eq_ok_iff_takes, takes_all_iff h]
  exact and_iff_right h.length_eq.symm

end Codec

namespace Argument

/-- The check of an argument's own descriptor never fails. -/
theorem toDatum_eq_ok_iff {a : Argument} {datum : Datum} : a.toDatum = .ok datum ↔
    ∃ value, a.toValue = .ok value ∧ value.datum = datum := by
  rw [toDatum]
  simp only [Result.bind_eq_ok, Result.pure_eq_ok]
  constructor
  · intro h
    obtain ⟨value, hv, ⟨⟩, -, hd⟩ := h
    exact ⟨value, hv, hd⟩
  · intro h
    obtain ⟨value, hv, hd⟩ := h
    exact ⟨value, hv, (), HostType.check_encode hv, hd⟩

def shape (a : Argument) : Shape := a.type.descriptor.shape

/-- Whether the type lays the argument out as packing does: it puts no head where an array of size
    zero leaves nothing. -/
def Aligned (a : Argument) : Prop :=
  ∀ value, a.toValue = .ok value → a.shape.Aligned value.datum

def Counted (a : Argument) : Prop := ∀ value, a.toValue = .ok value → value.datum.Counted

/-- Whether a payload without bytes can hold the argument alone: an array of size zero. -/
def AcceptsEmpty (a : Argument) : Prop := a.shape.acceptsEmpty = true

end Argument

namespace Codec

section Packing

variable {arguments : List Argument} {values : List Value} {payload : Bytes}

theorem collect_toDatum_eq_ok_iff {position : Nat} {data : List Datum} :
    collect Argument.toDatum position arguments = .ok data ↔
      ∃ values, List.Forall₂ (fun a v => Argument.toValue a = .ok v) arguments values ∧
        values.map Value.datum = data := by
  rw [Result.collect_eq_ok]
  simp only [Argument.toDatum_eq_ok_iff]
  exact forall₂_exists_and_map

theorem pack_eq_ok_iff : pack arguments = .ok payload ↔
    ∃ values, List.Forall₂ (fun a v => Argument.toValue a = .ok v) arguments values ∧
      encode (values.map Value.datum) = payload := by
  rw [pack, Result.map_eq_ok]
  simp only [collect_toDatum_eq_ok_iff]
  constructor
  · intro h
    obtain ⟨_, ⟨values, hv, rfl⟩, hp⟩ := h
    exact ⟨values, hv, hp⟩
  · intro h
    obtain ⟨values, hv, hp⟩ := h
    exact ⟨_, ⟨values, hv, rfl⟩, hp⟩

theorem hasType_of_toValue
    (h : List.Forall₂ (fun a v => Argument.toValue a = .ok v) arguments values) :
    List.Forall₂ HasType (arguments.map (·.type.descriptor)) values := by
  rw [List.forall₂_map_left_iff]
  exact h.imp fun a v hv => (HostType.encode_sound a.type hv).1

theorem admitsAll_of_hasType {types : List Descriptor}
    (h : List.Forall₂ HasType types values) :
    AdmitsAll (types.map Descriptor.shape) (values.map Value.datum) := by
  induction h with
  | nil => exact .nil
  | cons h _ ih => exact .cons h.admits ih

theorem allSized_of_arguments (arguments : List Argument) :
    Shape.AllSized ((arguments.map (·.type.descriptor)).map Descriptor.shape) := by
  induction arguments with
  | nil => trivial
  | cons a arguments ih => exact ⟨a.type.sized, ih⟩

theorem allAligned_iff
    (h : List.Forall₂ (fun a v => Argument.toValue a = .ok v) arguments values) :
    Shape.AllAligned ((arguments.map (·.type.descriptor)).map Descriptor.shape)
      (values.map Value.datum) ↔ ∀ a ∈ arguments, a.Aligned := by
  induction h with
  | nil => exact ⟨fun _ => nofun, fun _ => trivial⟩
  | @cons a v arguments values hv _ ih =>
    have ha : a.Aligned ↔ a.shape.Aligned v.datum := by
      simp [Argument.Aligned, hv]
    rw [List.forall_mem_cons, ha, ← ih]
    rfl

theorem allCounted_iff
    (h : List.Forall₂ (fun a v => Argument.toValue a = .ok v) arguments values) :
    Datum.AllCounted (values.map Value.datum) ↔ ∀ a ∈ arguments, a.Counted := by
  induction h with
  | nil => exact ⟨fun _ => nofun, fun _ => trivial⟩
  | @cons a v arguments values hv _ ih =>
    have ha : a.Counted ↔ v.datum.Counted := by
      simp [Argument.Counted, hv]
    rw [List.forall_mem_cons, ha, ← ih]
    rfl

end Packing

section Unpacking

variable {policy : Policy} {data payload : Bytes} {slots targets written : List Slot}
  {values : List Value}

theorem unpack_eq_ok_iff : unpack policy data targets = (.ok (), written) ↔
    ∃ values, decodeValues policy (targets.map (·.type.descriptor)) data = .ok values ∧
      written.map (·.type) = targets.map (·.type) ∧
      List.Forall₂ (fun w v => w.toValue = .ok v) written values := by
  rw [unpack]
  cases hd : decodeValues policy (targets.map (·.type.descriptor)) data with
  | error failure => simp
  | ok values =>
    simp only [inject_eq_ok_iff (decodeValues_sound hd).1, Except.ok.injEq, exists_eq_left']

/-- What a strict policy unpacks is packed to the same payload. -/
theorem pack_unpack (hs : policy.strict = true) (h : unpack policy data targets = (.ok (), written)) :
    pack (written.map Slot.toArgument) = .ok data := by
  obtain ⟨values, hd, -, hv⟩ := unpack_eq_ok_iff.1 h
  have he := (decodeValues_sound hd).2 hs
  exact pack_eq_ok_iff.2 ⟨values, List.forall₂_map_left_iff.2 hv, he⟩

def pairSlot (n : BitVec 8) (data : List (BitVec 8)) : Slot where
  type := .record "Pair" [⟨"x", .scalar (.uint .w8)⟩, ⟨"x", .sequence .growing (.scalar (.uint .w8))⟩]
  value := (n, data, ())
  owned := rfl

set_option maxRecDepth 4000 in
theorem pack_unpack_pair :
    unpack { strict := true } (encode [.tuple [.uint 7, .bytes [1, 2]]]) [pairSlot 0 []] =
        (.ok (), [pairSlot 7 [1, 2]]) ∧
      pack [(pairSlot 7 [1, 2]).toArgument] = .ok (encode [.tuple [.uint 7, .bytes [1, 2]]]) := by
  have hu : unpack { strict := true } (encode [.tuple [.uint 7, .bytes [1, 2]]]) [pairSlot 0 []] =
      (.ok (), [pairSlot 7 [1, 2]]) := rfl
  exact ⟨hu, pack_unpack rfl hu⟩

theorem unpack_eq_ok_iff_decodeValues (ht : targets.map (·.type) = slots.map (·.type))
    (hv : List.Forall₂ (fun s v => Argument.toValue s = .ok v) (slots.map Slot.toArgument) values) :
    unpack policy data targets = (.ok (), slots) ↔
      decodeValues policy ((slots.map Slot.toArgument).map (·.type.descriptor)) data =
        .ok values := by
  have hd : targets.map (·.type.descriptor) =
      (slots.map Slot.toArgument).map (·.type.descriptor) := by
    have hm := congrArg (List.map HostType.descriptor) ht
    rw [List.map_map, List.map_map] at hm
    rw [List.map_map]
    exact hm
  rw [List.forall₂_map_left_iff] at hv
  rw [unpack_eq_ok_iff, hd]
  constructor
  · intro h
    obtain ⟨found, hf, -, hw⟩ := h
    have hu : Relator.RightUnique fun (s : Slot) v => s.toValue = .ok v :=
      fun _ _ _ hv hw => Except.ok.inj (hv.symm.trans hw)
    rw [hu.forall₂ hv hw]
    exact hf
  · intro hf
    exact ⟨values, hf, ht.symm, hv⟩

theorem shapes_eq (slots : List Slot) :
    ((slots.map Slot.toArgument).map (·.type.descriptor)).map Descriptor.shape =
      slots.map fun s => s.shape := by
  rw [List.map_map, List.map_map]
  rfl

theorem unpack_eq_ok_iff_decode {strict : Bool} (ht : targets.map (·.type) = slots.map (·.type))
    (hf : ∀ s ∈ slots, s.type.Filled)
    (hv : List.Forall₂ (fun s v => Argument.toValue s = .ok v) (slots.map Slot.toArgument) values) :
    unpack { strict } (encode (values.map Value.datum)) targets = (.ok (), slots) ↔
      decode (slots.map fun s => s.shape) (encode (values.map Value.datum)) =
        .ok (values.map Value.datum) := by
  have hm : ∀ type ∈ (slots.map Slot.toArgument).map (·.type.descriptor),
      type.hasEmptyTuple = false := by
    rw [List.forall_mem_map, List.forall_mem_map]
    exact fun s hs => s.type.hasEmptyTuple_eq_false (hf s hs)
  rw [unpack_eq_ok_iff_decodeValues ht hv, decodeValues_encode_iff (hasType_of_toValue hv),
    shapes_eq]
  exact ⟨fun h => h.2, fun h => ⟨hm, h⟩⟩

theorem all_acceptsEmpty_iff : (slots.map fun s => s.shape).all Shape.acceptsEmpty = true ↔
    ∀ s ∈ slots, s.AcceptsEmpty := by
  rw [List.all_eq_true, List.forall_mem_map]
  rfl

/-- Unpacking undoes packing of aligned arguments exactly when length words can tell their lengths
    and no head is wanted where there are no bytes at all. Other arguments are packed to fewer bytes
    than their types take, and it is left to chance whether their data are read back. -/
theorem unpack_pack (hp : pack (slots.map Slot.toArgument) = .ok payload)
    (hl : payload.length < 2 ^ 32) (ht : targets.map (·.type) = slots.map (·.type))
    (hf : ∀ s ∈ slots, s.type.Filled) :
    ((∀ s ∈ slots, s.Aligned) → ∀ strict : Bool,
        (unpack { strict } payload targets = (.ok (), slots) ↔
          (∀ s ∈ slots, s.Counted) ∧ (payload = [] → ∀ s ∈ slots, s.AcceptsEmpty))) ∧
      ((¬ ∀ s ∈ slots, s.Aligned) → ∃ data,
        collect Argument.toDatum 0 (slots.map Slot.toArgument) = .ok data ∧
          payload.length < (Shape.layoutAll (slots.map fun s => s.shape) data).length ∧
          ∀ strict : Bool, (unpack { strict } payload targets = (.ok (), slots) ↔
            decode (slots.map fun s => s.shape) payload = .ok data)) := by
  obtain ⟨values, hv, rfl⟩ := pack_eq_ok_iff.1 hp
  have ha := admitsAll_of_hasType (hasType_of_toValue hv)
  have hz := allSized_of_arguments (slots.map Slot.toArgument)
  have hg := allAligned_iff hv
  have hc := allCounted_iff hv
  rw [shapes_eq] at ha hz hg
  rw [List.forall_mem_map] at hg hc
  constructor
  · intro hn strict
    rw [unpack_eq_ok_iff_decode ht hf hv, decode_encode_iff ha hz (hg.2 hn) hl, hc,
      all_acceptsEmpty_iff]
  · intro hn
    have hs := encode_length_lt ha fun h => hn (hg.1 h)
    exact ⟨_, collect_toDatum_eq_ok_iff.2 ⟨values, hv, rfl⟩, hs,
      fun strict => unpack_eq_ok_iff_decode ht hf hv⟩

def voteSlot (voter : String) (weights : List (BitVec 16)) (passed : Option Bool) : Slot where
  type := .record "Vote" [⟨"voter", .scalar .string⟩,
    ⟨"weights", .sequence .growing (.scalar (.uint .w16))⟩,
    ⟨"flags", .sequence (.fixed 0) (.scalar .bool)⟩,
    ⟨"passed", .optional (.pointer .boxed (.scalar .bool))⟩]
  value := (voter, weights, #v[], passed, ())
  owned := rfl

def voteData : Datum :=
  .tuple [.string "né", .array [.uint 1, .uint 700], .fixedArray [], .bool true]

set_option maxRecDepth 4000 in
theorem unpack_pack_vote : pack ([voteSlot "né" [1, 700] (some true)].map Slot.toArgument) =
      .ok (encode [voteData]) ∧
    ∀ strict : Bool, unpack { strict } (encode [voteData]) [voteSlot "" [] none] =
      (.ok (), [voteSlot "né" [1, 700] (some true)]) := by
  have hp : pack ([voteSlot "né" [1, 700] (some true)].map Slot.toArgument) = .ok (encode [voteData]) := rfl
  have hv : ∀ value, (voteSlot "né" [1, 700] (some true)).toValue = .ok value →
      value.datum = voteData := by
    intro value h
    cases h
    rfl
  have hl : (encode [voteData]).length < 2 ^ 32 := by decide +kernel
  have hf : ∀ s ∈ [voteSlot "né" [1, 700] (some true)], s.type.Filled := by
    rw [List.forall_mem_singleton]
    simp [voteSlot, HostType.Filled, HostType.AllFilled]
  have ha : ∀ s ∈ [voteSlot "né" [1, 700] (some true)], s.Aligned := by
    rw [List.forall_mem_singleton]
    intro value h
    rw [hv value h]
    exact ⟨trivial, fun _ _ => trivial, ⟨fun _ => rfl, nofun⟩, trivial, trivial⟩
  have hc : ∀ s ∈ [voteSlot "né" [1, 700] (some true)], s.Counted := by
    rw [List.forall_mem_singleton]
    intro value h
    rw [hv value h]
    exact ⟨trivial, ⟨by decide, trivial, trivial, trivial⟩, trivial, trivial, trivial⟩
  have ht : [voteSlot "" [] none].map (·.type) =
      [voteSlot "né" [1, 700] (some true)].map (·.type) := rfl
  exact ⟨hp, fun strict => ((unpack_pack hp hl ht hf).1 ha strict).2 ⟨hc, nofun⟩⟩

def emptyTexts : Slot where
  type := .sequence (.fixed 0) (.scalar .string)
  value := (#v[] : Vector String 0)
  owned := rfl

/-- An array of size zero of texts is packed to no bytes and not unpacked from them. -/
theorem not_unpack_pack : pack [emptyTexts.toArgument] = .ok [] ∧
    ∀ strict : Bool, unpack { strict } [] [emptyTexts] =
      (.error (.decoding (.abi .invalidData)), [emptyTexts]) :=
  ⟨rfl, fun strict => by cases strict <;> rfl⟩
end Unpacking

end Codec

end Attest
