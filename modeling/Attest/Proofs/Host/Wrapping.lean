import Mathlib.Data.Set.List
import Attest.Proofs.Host.Interoperation
import Attest.Proofs.Host.Reordering

set_option autoImplicit false

/-!
# Wrapped types

A host type stays as it is to everyone else when pointers and options are put around parts of it:
descriptor, encoding and decoding do not change. The one exception is a byte that is packed, which
stops being one when it is wrapped.
-/
namespace Attest

namespace Extent

def map {α β : Type} (f : α → β) : (extent : Extent) → extent.Of α → extent.Of β
  | .growing, items | .view, items => List.map f items
  | .fixed _, items => Vector.map f items

section Map

variable {α β : Type} {extent : Extent}

theorem toList_map (f : α → β) (whole : extent.Of α) :
    extent.toList (extent.map f whole) = (extent.toList whole).map f := by
  cases extent with
  | fixed size => exact Vector.toList_map
  | _ => rfl

theorem toList_injective : Function.Injective (extent.toList (α := α)) := by
  intro a b h
  have ha := ofList?_eq_some_iff.2 h
  rw [ofList?_eq_some_iff.2 rfl] at ha
  exact (Option.some.inj ha).symm

theorem map_injective {f : α → β} (hf : Function.Injective f) :
    Function.Injective (extent.map f) := by
  intro a b h
  have hl := congrArg extent.toList h
  rw [toList_map, toList_map] at hl
  exact toList_injective (List.map_injective_iff.2 hf hl)

theorem ofList?_map (f : α → β) (items : List α) :
    extent.ofList? (items.map f) = (extent.ofList? items).map (extent.map f) := by
  cases h : extent.ofList? items with
  | some whole =>
    rw [Option.map_some, ofList?_eq_some_iff, toList_map, ofList?_eq_some_iff.1 h]
  | none =>
    cases extent with
    | fixed size =>
      have hl : items.length ≠ size := by
        intro hl
        rw [ofList?, dif_pos hl] at h
        cases h
      exact dif_neg (by rwa [List.length_map])
    | _ => cases h

theorem exists_map {f : α → β} (whole : extent.Of β)
    (h : ∀ item ∈ extent.toList whole, ∃ a, f a = item) : ∃ part, extent.map f part = whole := by
  have hr : extent.toList whole ∈ Set.range (List.map f) := by
    rw [Set.range_list_map]
    exact h
  obtain ⟨items, hi⟩ := hr
  have hs : ∀ n, extent.size? = some n → items.length = n := by
    intro n hn
    rw [← List.length_map f, hi, length_toList hn]
  obtain ⟨part, rfl⟩ := exists_toList hs
  rw [← toList_map] at hi
  exact ⟨part, toList_injective hi⟩

end Map

end Extent

mutual

/-- The ways in which a host type comes from another by wrapping parts of it: it is built from parts
    that do, and may be a pointer to the whole or an option of it. -/
inductive Wrapping : HostType → HostType → Type
  | scalar (s : Scalar) : Wrapping (.scalar s) (.scalar s)
  | pointer (kind : Pointer) {t u : HostType} (w : Wrapping t u) :
    Wrapping (.pointer kind t) (.pointer kind u)
  | optional {t u : HostType} (w : Wrapping t u) : Wrapping (.optional t) (.optional u)
  | sequence (extent : Extent) {t u : HostType} (w : Wrapping t u) :
    Wrapping (.sequence extent t) (.sequence extent u)
  | record (name other : String) {fields others : List (Named HostType)}
    (ws : FieldWrapping fields others) : Wrapping (.record name fields) (.record other others)
  | intoPointer (kind : Pointer) {t u : HostType} (w : Wrapping t u) : Wrapping t (.pointer kind u)
  | intoOption {t u : HostType} (w : Wrapping t u) : Wrapping t (.optional u)

inductive FieldWrapping : List (Named HostType) → List (Named HostType) → Type
  | nil : FieldWrapping [] []
  | cons (name : String) {t u : HostType} {fields others : List (Named HostType)}
    (w : Wrapping t u) (ws : FieldWrapping fields others) :
    FieldWrapping (⟨name, t⟩ :: fields) (⟨name, u⟩ :: others)

end

mutual

def Wrapping.wrap : {t u : HostType} → Wrapping t u → t.Val → u.Val
  | _, _, .scalar _, x => x
  | _, _, .pointer _ w, x => w.wrap x
  | _, _, .optional w, x => Option.map w.wrap x
  | _, _, .sequence extent w, x => extent.map w.wrap x
  | _, _, .record _ _ ws, x => ws.wrap x
  | _, _, .intoPointer _ w, x => w.wrap x
  | _, _, .intoOption w, x => some (w.wrap x)

def FieldWrapping.wrap : {fields others : List (Named HostType)} → FieldWrapping fields others →
    HostType.Vals fields → HostType.Vals others
  | _, _, .nil, _ => ()
  | _, _, .cons _ w ws, (x, xs) => (w.wrap x, ws.wrap xs)

end

namespace HostType

/-- Whether bytes in a sequence of that size are packed, so that they are no elements of their own. -/
def packsBytes : Option Nat → Bool
  | none => true
  | some size => size = 32

mutual

def Present : (t : HostType) → t.Val → Prop
  | .scalar _, _ => True
  | .pointer _ target, x => target.Present x
  | .optional target, x =>
    match x with
    | some x => target.Present x
    | none => False
  | .sequence extent element, x => ∀ item ∈ extent.toList x, element.Present item
  | .record _ fields, x => AllPresent fields x

def AllPresent : (fields : List (Named HostType)) → Vals fields → Prop
  | [], _ => True
  | ⟨_, type⟩ :: fields, (x, xs) => type.Present x ∧ AllPresent fields xs

end

end HostType

mutual

/-- Whether no byte is wrapped that is packed where it stands. -/
def Wrapping.KeepsBytes : {t u : HostType} → Wrapping t u → Prop
  | _, _, .scalar _ => True
  | _, _, .pointer _ w | _, _, .optional w | _, _, .intoPointer _ w | _, _, .intoOption w =>
    w.KeepsBytes
  | _, _, @Wrapping.sequence extent t u w =>
    w.KeepsBytes ∧ (HostType.packsBytes extent.size? = true → t.isByte = true → u.isByte = true)
  | _, _, .record _ _ ws => ws.KeepBytes

def FieldWrapping.KeepBytes : {fields others : List (Named HostType)} →
    FieldWrapping fields others → Prop
  | _, _, .nil => True
  | _, _, .cons _ w ws => w.KeepsBytes ∧ ws.KeepBytes

end

namespace Wrapping

open HostType

/-! ### Sequences of wrapped elements -/

section Sequences

variable {t u : HostType} (w : Wrapping t u) {size : Option Nat}

include w

theorem isByte_of_isByte (h : u.isByte = true) : t.isByte = true := by
  cases isByte_eq_true_iff.1 h
  cases w with
  | scalar => exact h

theorem sequenceDescriptor_eq_iff :
    sequenceDescriptor u.isByte u.descriptor size = sequenceDescriptor t.isByte t.descriptor size ↔
      u.descriptor = t.descriptor ∧
        (packsBytes size = true → t.isByte = true → u.isByte = true) := by
  by_cases hu : u.isByte = true
  · have ht := w.isByte_of_isByte hu
    cases isByte_eq_true_iff.1 hu
    cases isByte_eq_true_iff.1 ht
    exact ⟨fun _ => ⟨rfl, fun _ _ => rfl⟩, fun _ => rfl⟩
  · have hs : ∀ n, sequenceDescriptor u.isByte u.descriptor (some n) = .fixedArray n u.descriptor :=
      fun n => if_neg fun h => hu h.1
    cases size with
    | none => cases ht : t.isByte <;> simp [sequenceDescriptor, packsBytes, hu]
    | some n =>
      rw [hs]
      by_cases hn : n = 32 <;> cases ht : t.isByte <;> simp [sequenceDescriptor, packsBytes, hu, hn]

/-- A byte that stays packed stays itself. Elsewhere neither element is packed. -/
theorem packed_or_not (h : packsBytes size = true → t.isByte = true → u.isByte = true) :
    (t = .scalar (.uint .w8) ∧ u = .scalar (.uint .w8)) ∨
      (¬ (t.isByte = true ∧ packsBytes size = true) ∧
        ¬ (u.isByte = true ∧ packsBytes size = true)) := by
  by_cases ht : t.isByte = true ∧ packsBytes size = true
  · exact .inl ⟨isByte_eq_true_iff.1 ht.1, isByte_eq_true_iff.1 (h ht.2 ht.1)⟩
  · exact .inr ⟨ht, fun hu => ht ⟨w.isByte_of_isByte hu.1, hu.2⟩⟩

theorem encodeSequence_wrap (he : ∀ x, u.encode (w.wrap x) = t.encode x)
    (h : packsBytes size = true → t.isByte = true → u.isByte = true) (items : List t.Val) :
    encodeSequence u u.encode size (items.map w.wrap) = encodeSequence t t.encode size items := by
  rcases w.packed_or_not h with ⟨rfl, rfl⟩ | ⟨ht, hu⟩
  · cases w
    have hw : items.map (Wrapping.scalar (.uint .w8)).wrap = items := List.map_id items
    rw [hw]
  · have hc : convertElements u.encode 0 (items.map w.wrap) = convertElements t.encode 0 items :=
      convertElements_congr (List.forall₂_map_left_iff.2 (List.forall₂_same.2 fun x _ => he x)) 0
    cases size with
    | none =>
      simp only [packsBytes, and_true, Bool.not_eq_true] at ht hu
      rw [encodeSequence_growing hu, encodeSequence_growing ht, hc]
    | some n =>
      simp only [packsBytes, decide_eq_true_eq] at ht hu
      rw [encodeSequence_fixed hu, encodeSequence_fixed ht, hc]

variable (hd : ∀ value, u.decode value = (t.decode value).map w.wrap)

include hd

theorem decodeElements_wrap (size : Option Nat) (value : Value) :
    decodeElements u u.decode size value =
      (decodeElements t t.decode size value).map (List.map w.wrap) := by
  have hc : ∀ values position, convertElements u.decode position values =
      (convertElements t.decode position values).map (List.map w.wrap) := by
    intro values
    induction values with
    | nil => exact fun _ => rfl
    | cons v values ih =>
      intro position
      rw [convertElements, convertElements, hd, ih]
      cases t.decode v with
      | error failure => rfl
      | ok x => cases convertElements t.decode (position + 1) values <;> rfl
  unfold decodeElements
  split
  · split
    · exact hc _ 0
    · rfl
  · exact hc _ 0
  · rfl
  · rfl

theorem decodeSequence_wrap (h : packsBytes size = true → t.isByte = true → u.isByte = true)
    (value : Value) :
    decodeSequence u u.decode size value =
      (decodeSequence t t.decode size value).map (List.map w.wrap) := by
  rcases w.packed_or_not h with ⟨rfl, rfl⟩ | ⟨ht, hu⟩
  · cases w
    have hw : List.map (Wrapping.scalar (.uint .w8)).wrap = id := List.map_id_fun
    rw [hw]
    cases decodeSequence (.scalar (.uint .w8)) _ size value <;> rfl
  · cases size with
    | none =>
      simp only [packsBytes, and_true, Bool.not_eq_true] at ht hu
      rw [decodeSequence_growing hu, decodeSequence_growing ht, w.decodeElements_wrap hd]
    | some n =>
      simp only [packsBytes, decide_eq_true_eq] at ht hu
      rw [decodeSequence_fixed hu, decodeSequence_fixed ht, w.decodeElements_wrap hd]

end Sequences

end Wrapping

/-! ### Types, values and conversions -/

open HostType

mutual

theorem Wrapping.descriptor_eq_iff {t u : HostType} (w : Wrapping t u) :
    u.descriptor = t.descriptor ↔ w.KeepsBytes := by
  cases w with
  | scalar s => exact ⟨fun _ => trivial, fun _ => rfl⟩
  | pointer kind w => exact w.descriptor_eq_iff
  | optional w => exact w.descriptor_eq_iff
  | sequence extent w =>
    exact w.sequenceDescriptor_eq_iff.trans (and_congr_left' w.descriptor_eq_iff)
  | record name other ws =>
    rw [descriptor, descriptor, Descriptor.tuple.injEq]
    exact ws.descriptors_eq_iff
  | intoPointer kind w => exact w.descriptor_eq_iff
  | intoOption w => exact w.descriptor_eq_iff

theorem FieldWrapping.descriptors_eq_iff {fields others : List (Named HostType)}
    (ws : FieldWrapping fields others) :
    fieldDescriptors others = fieldDescriptors fields ↔ ws.KeepBytes := by
  cases ws with
  | nil => exact ⟨fun _ => trivial, fun _ => rfl⟩
  | cons name w ws =>
    rw [fieldDescriptors, fieldDescriptors, List.cons.injEq, Named.mk.injEq, ws.descriptors_eq_iff,
      w.descriptor_eq_iff, FieldWrapping.KeepBytes]
    simp only [true_and]

end

mutual

theorem Wrapping.encode_wrap {t u : HostType} (w : Wrapping t u) (h : w.KeepsBytes) (x : t.Val) :
    u.encode (w.wrap x) = t.encode x := by
  cases w with
  | scalar s => rfl
  | pointer kind w => exact w.encode_wrap h x
  | optional w =>
    cases x with
    | none => rfl
    | some x => exact w.encode_wrap h x
  | sequence extent w =>
    have hl : extent.toList (extent.map w.wrap x) = List.map w.wrap (extent.toList x) :=
      Extent.toList_map w.wrap x
    rw [encode, encode, Wrapping.wrap, hl]
    exact w.encodeSequence_wrap (w.encode_wrap h.1) h.2 (extent.toList x)
  | record name other ws => exact congrArg (Except.map Value.tuple) (ws.encode_wrap h x)
  | intoPointer kind w => exact w.encode_wrap h x
  | intoOption w => exact w.encode_wrap h x

theorem FieldWrapping.encode_wrap {fields others : List (Named HostType)}
    (ws : FieldWrapping fields others) (h : ws.KeepBytes) (xs : Vals fields) :
    encodeFields others (ws.wrap xs) = encodeFields fields xs := by
  cases ws with
  | nil => rfl
  | cons name w ws =>
    obtain ⟨x, xs⟩ := xs
    rw [FieldWrapping.wrap, encodeFields, encodeFields, w.encode_wrap h.1, ws.encode_wrap h.2]

end

theorem take_map {t u : HostType} {f : t.Val → u.Val}
    (h : ∀ value, u.decode value = (t.decode value).map f) (tuple : TupleFields) (name : String) :
    tuple.take u name = ((tuple.take t name).1.map f, (tuple.take t name).2) := by
  cases he : tuple.extract? name with
  | none =>
    rw [TupleFields.take_of_missing he, TupleFields.take_of_missing he]
    rfl
  | some found =>
    obtain ⟨value, left⟩ := found
    rw [TupleFields.take_of_extract? he, TupleFields.take_of_extract? he, h]
    cases t.decode value <;> rfl

mutual

theorem Wrapping.decode_eq {t u : HostType} (w : Wrapping t u) (h : w.KeepsBytes) (value : Value) :
    u.decode value = (t.decode value).map w.wrap := by
  cases w with
  | scalar s =>
    rw [decode]
    cases s.decode value <;> rfl
  | pointer kind w => exact w.decode_eq h value
  | @optional t u w =>
    rw [decode, decode, w.decode_eq h]
    cases t.decode value <;> rfl
  | @sequence extent t u w =>
    rw [decode, decode, w.decodeSequence_wrap (w.decode_eq h.1) h.2]
    cases decodeSequence t t.decode extent.size? value with
    | error failure => rfl
    | ok items =>
      have hm := extent.ofList?_map w.wrap items
      simp only [Except.map, bind, Except.bind, hm, List.length_map]
      cases extent.ofList? items <;> rfl
  | record name other ws =>
    rw [decode, decode]
    cases value.openTuple with
    | error failure => rfl
    | ok tuple => exact ws.decode_eq h tuple
  | intoPointer kind w => exact w.decode_eq h value
  | @intoOption t u w =>
    rw [decode, w.decode_eq h]
    cases t.decode value <;> rfl

theorem FieldWrapping.decode_eq {fields others : List (Named HostType)}
    (ws : FieldWrapping fields others) (h : ws.KeepBytes) (tuple : TupleFields) :
    decodeFields others tuple = (decodeFields fields tuple).map ws.wrap := by
  cases ws with
  | nil => rfl
  | @cons name t u fields others w ws =>
    rw [decodeFields_cons, decodeFields_cons]
    dsimp only
    rw [take_map (w.decode_eq h.1), ws.decode_eq h.2]
    cases (tuple.take t name).1 with
    | error failure => rfl
    | ok x => cases decodeFields fields (tuple.take t name).2 <;> rfl

end

mutual

theorem Wrapping.wrap_injective {t u : HostType} (w : Wrapping t u) :
    Function.Injective w.wrap := by
  cases w with
  | scalar s => exact fun _ _ h => h
  | pointer kind w => exact w.wrap_injective
  | optional w => exact Option.map_injective w.wrap_injective
  | sequence extent w => exact Extent.map_injective w.wrap_injective
  | record name other ws => exact ws.wrap_injective
  | intoPointer kind w => exact w.wrap_injective
  | intoOption w => exact fun _ _ h => w.wrap_injective (Option.some.inj h)

theorem FieldWrapping.wrap_injective {fields others : List (Named HostType)}
    (ws : FieldWrapping fields others) : Function.Injective ws.wrap := by
  cases ws with
  | nil => exact fun _ _ _ => rfl
  | cons name w ws =>
    rintro ⟨x, xs⟩ ⟨y, ys⟩ h
    obtain ⟨hx, hs⟩ := Prod.mk.inj h
    rw [w.wrap_injective hx, ws.wrap_injective hs]

end

mutual

theorem Wrapping.exists_wrap {t u : HostType} (w : Wrapping t u) (y : u.Val) (h : u.Present y) :
    ∃ x, w.wrap x = y := by
  cases w with
  | scalar s => exact ⟨y, rfl⟩
  | pointer kind w => exact w.exists_wrap y h
  | optional w =>
    cases y with
    | none => exact h.elim
    | some y =>
      obtain ⟨x, hx⟩ := w.exists_wrap y h
      exact ⟨some x, congrArg some hx⟩
  | sequence extent w =>
    exact Extent.exists_map y fun item hm => w.exists_wrap item (h item hm)
  | record name other ws => exact ws.exists_wrap y h
  | intoPointer kind w => exact w.exists_wrap y h
  | intoOption w =>
    cases y with
    | none => exact h.elim
    | some y =>
      obtain ⟨x, hx⟩ := w.exists_wrap y h
      exact ⟨x, congrArg some hx⟩

theorem FieldWrapping.exists_wrap {fields others : List (Named HostType)}
    (ws : FieldWrapping fields others) (ys : Vals others) (h : AllPresent others ys) :
    ∃ xs, ws.wrap xs = ys := by
  cases ws with
  | nil => exact ⟨(), rfl⟩
  | cons name w ws =>
    obtain ⟨x, hx⟩ := w.exists_wrap ys.1 h.1
    obtain ⟨xs, hs⟩ := ws.exists_wrap ys.2 h.2
    exact ⟨(x, xs), Prod.ext hx hs⟩

end

/-- Wrapping parts of a type changes its descriptor exactly if a packed byte is wrapped. If none is,
    a wrapped value encodes to what the value does, every value whose options are all present is the
    wrapped form of exactly one, and decoding gives the wrapped form of what it gave before or fails
    in the same place for the same reason. -/
theorem Wrapping.transparent {t u : HostType} (w : Wrapping t u) :
    (u.descriptor = t.descriptor ↔ w.KeepsBytes) ∧
      (w.KeepsBytes →
        (∀ x, u.encode (w.wrap x) = t.encode x) ∧
        (∀ y, u.Present y → ∃! x, w.wrap x = y) ∧
        ∀ value, u.decode value = (t.decode value).map w.wrap) := by
  refine ⟨w.descriptor_eq_iff, fun h => ⟨w.encode_wrap h, fun y hy => ?_, w.decode_eq h⟩⟩
  obtain ⟨x, hx⟩ := w.exists_wrap y hy
  exact ⟨x, hx, fun x' hx' => w.wrap_injective (hx'.trans hx.symm)⟩

namespace Wrapping

def entry : HostType :=
  .record "Entry"
    [⟨"digest", .sequence (.fixed 32) (.scalar (.uint .w8))⟩,
     ⟨"tags", .sequence .growing (.scalar .string)⟩,
     ⟨"code", .sequence (.fixed 2) (.scalar (.uint .w8))⟩,
     ⟨"limit", .optional (.scalar (.uint .w16))⟩]

def sharedEntry : HostType :=
  .pointer .boxed (.record "SharedEntry"
    [⟨"digest", .optional (.sequence (.fixed 32) (.scalar (.uint .w8)))⟩,
     ⟨"tags", .pointer .shared (.sequence .growing (.optional (.pointer .boxed (.scalar .string))))⟩,
     ⟨"code", .sequence (.fixed 2) (.pointer .boxed (.scalar (.uint .w8)))⟩,
     ⟨"limit", .optional (.pointer .boxed (.scalar (.uint .w16)))⟩])

def sharing : Wrapping entry sharedEntry :=
  .intoPointer .boxed (.record "Entry" "SharedEntry"
    (.cons "digest" (.intoOption (.sequence (.fixed 32) (.scalar (.uint .w8))))
      (.cons "tags" (.intoPointer .shared
          (.sequence .growing (.intoOption (.intoPointer .boxed (.scalar .string)))))
        (.cons "code" (.sequence (.fixed 2) (.intoPointer .boxed (.scalar (.uint .w8))))
          (.cons "limit" (.optional (.intoPointer .boxed (.scalar (.uint .w16)))) .nil)))))

def entryTagged (tag : String) : entry.Val :=
  ((Vector.replicate 32 7#8 : Vector (BitVec 8) 32), ["né", tag],
    (#v[3, 255] : Vector (BitVec 8) 2), some 300#16, ())

def entryValue (tag : Value) : Value :=
  .tuple [⟨"digest", .fixedBytes (List.replicate 32 7)⟩, ⟨"tags", .array [.string "né", tag]⟩,
    ⟨"code", .fixedArray [.uint 3, .uint 255]⟩, ⟨"limit", .uint 300⟩]

set_option maxRecDepth 4000 in
theorem transparent_sharing : sharing.KeepsBytes ∧ sharedEntry.descriptor = entry.descriptor ∧
    sharedEntry.encode (sharing.wrap (entryTagged "")) = .ok (entryValue (.string "")) ∧
    sharedEntry.decode (entryValue (.string "")) = .ok (sharing.wrap (entryTagged "")) ∧
    sharedEntry.decode (entryValue (.bool true)) =
      .error (.injection [.field "tags", .index 1] (.kind (.ofType .string) .bool)) := by
  have h : sharing.KeepsBytes :=
    ⟨⟨trivial, fun _ h => h⟩, ⟨trivial, nofun⟩, ⟨trivial, nofun⟩, trivial, trivial⟩
  obtain ⟨hd, hs⟩ := sharing.transparent
  obtain ⟨he, -, hv⟩ := hs h
  exact ⟨h, hd.2 h, (he _).trans rfl, (hv _).trans rfl, (hv _).trans rfl⟩

/-- A packed byte that is wrapped is an element. -/
example : (HostType.sequence .growing (.pointer .boxed (.scalar (.uint .w8)))).descriptor =
    .array (.uint .w8) := rfl

end Wrapping

end Attest
