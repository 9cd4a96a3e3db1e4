import Attest.Proofs.Abi.Frame

set_option autoImplicit false

/-!
# Layout by shape

`layout` is the standard encoding: the shape decides what goes to the tail. `encode` lets the datum
decide. The two agree except at an array of size zero whose elements would be dynamic: by its shape
it has a head, by its datum it takes no bytes at all.
-/
namespace Attest.Abi

mutual

/-- Whether a datum is of a shape. A number may have more bits than the shape names. -/
inductive Admits : Shape → Datum → Prop
  | address (a : Address) : Admits .address (.address a)
  | bool (value : Bool) : Admits .bool (.bool value)
  | string (text : String) : Admits .string (.string text)
  | fixedBytes {size : Nat} {data : Bytes} (h : data.length = size) :
    Admits (.fixedBytes size) (.fixedBytes data)
  | bytes (data : Bytes) : Admits .bytes (.bytes data)
  | uint (bits : Nat) (value : Word) : Admits (.uint bits) (.uint value)
  | tuple {shapes : List Shape} {members : List Datum} (h : AdmitsAll shapes members) :
    Admits (.tuple shapes) (.tuple members)
  | fixedArray {size : Nat} {element : Shape} {elements : List Datum}
    (h : AdmitsAll (List.replicate size element) elements) :
    Admits (.fixedArray size element) (.fixedArray elements)
  | array {element : Shape} {elements : List Datum}
    (h : AdmitsAll (List.replicate elements.length element) elements) :
    Admits (.array element) (.array elements)

inductive AdmitsAll : List Shape → List Datum → Prop
  | nil : AdmitsAll [] []
  | cons {shape : Shape} {datum : Datum} {shapes : List Shape} {data : List Datum}
    (h : Admits shape datum) (hs : AdmitsAll shapes data) :
    AdmitsAll (shape :: shapes) (datum :: data)

end

theorem AdmitsAll.length_eq {shapes : List Shape} {data : List Datum} (h : AdmitsAll shapes data) :
    data.length = shapes.length := by
  induction data generalizing shapes with
  | nil => cases h; rfl
  | cons datum data ih =>
    cases h with
    | cons _ hs => rw [List.length_cons, List.length_cons, ih hs]

theorem admitsAll_replicate_iff {element : Shape} {size : Nat} {elements : List Datum} :
    AdmitsAll (List.replicate size element) elements ↔
      elements.length = size ∧ ∀ d ∈ elements, Admits element d := by
  induction elements generalizing size with
  | nil =>
    constructor
    · intro h
      have hl := h.length_eq
      simpa using hl
    · intro hw
      obtain ⟨rfl, -⟩ := hw
      exact .nil
  | cons d elements ih =>
    cases size with
    | zero =>
      constructor
      · intro h
        cases h
      · intro h
        simp at h
    | succ size =>
      rw [List.replicate_succ]
      constructor
      · intro h
        cases h with
        | cons hd hs =>
          obtain ⟨hl, ha⟩ := ih.1 hs
          exact ⟨by simpa using hl, by simpa using ⟨hd, ha⟩⟩
      · intro hw
        obtain ⟨hl, ha⟩ := hw
        exact .cons (ha d (by simp)) (ih.2 ⟨by simpa using hl, fun x hx => ha x (by simp [hx])⟩)

namespace Shape

mutual

def layout : Shape → Datum → Bytes
  | .address, .address a => Bytes.zeros 12 ++ a.bytes.toList
  | .bool, .bool value => Bytes.zeros 31 ++ [if value then 1 else 0]
  | .string, .string text => sized (Text.utf8 text.toList)
  | .fixedBytes _, .fixedBytes data => data.padRight
  | .bytes, .bytes data => sized data
  | .uint _, .uint value => bigEndian 32 value.toNat
  | .tuple shapes, .tuple members => frame (layoutParts shapes members)
  | .fixedArray _ element, .fixedArray elements =>
    frame (elements.map fun d => ⟨element.isDynamic, element.layout d⟩)
  | .array element, .array elements =>
    sizeWord elements.length ++ frame (elements.map fun d => ⟨element.isDynamic, element.layout d⟩)
  | _, _ => []

def layoutParts : List Shape → List Datum → List Part
  | shape :: shapes, datum :: data =>
    ⟨shape.isDynamic, shape.layout datum⟩ :: layoutParts shapes data
  | _, _ => []

end

mutual

/-- Whether no array of size zero in a datum has elements of a dynamic shape. -/
def Aligned : Shape → Datum → Prop
  | .tuple shapes, .tuple members => AllAligned shapes members
  | .fixedArray size element, .fixedArray elements =>
    (size = 0 → element.isDynamic = false) ∧ ∀ d ∈ elements, element.Aligned d
  | .array element, .array elements => ∀ d ∈ elements, element.Aligned d
  | _, _ => True

def AllAligned : List Shape → List Datum → Prop
  | shape :: shapes, datum :: data => shape.Aligned datum ∧ AllAligned shapes data
  | _, _ => True

end

def part (shape : Shape) (datum : Datum) : Part := ⟨shape.isDynamic, shape.layout datum⟩

theorem layoutParts_replicate {element : Shape} {size : Nat} {elements : List Datum}
    (h : elements.length = size) :
    layoutParts (List.replicate size element) elements = elements.map element.part := by
  induction elements generalizing size with
  | nil => cases size <;> rfl
  | cons d elements ih =>
    subst h
    rw [List.length_cons, List.replicate_succ, layoutParts, ih rfl]
    rfl

theorem allAligned_replicate {element : Shape} {size : Nat} {elements : List Datum}
    (h : elements.length = size) :
    AllAligned (List.replicate size element) elements ↔ ∀ d ∈ elements, element.Aligned d := by
  induction elements generalizing size with
  | nil => cases size <;> simp [AllAligned]
  | cons d elements ih =>
    subst h
    rw [List.length_cons, List.replicate_succ, AllAligned, ih rfl, List.forall_mem_cons]

theorem anyDynamic_replicate (size : Nat) (element : Shape) :
    anyDynamic (List.replicate size element) = (size != 0 && element.isDynamic) := by
  induction size with
  | zero => rfl
  | succ size ih =>
    rw [List.replicate_succ, anyDynamic, ih]
    cases element.isDynamic <;> simp

theorem any_inTail {shapes : List Shape} {data : List Datum} (h : data.length = shapes.length) :
    (layoutParts shapes data).any Part.inTail = anyDynamic shapes := by
  induction data generalizing shapes with
  | nil =>
    rw [List.eq_nil_of_length_eq_zero h.symm]
    rfl
  | cons d data ih =>
    cases shapes with
    | nil => simp at h
    | cons shape shapes =>
      rw [layoutParts, List.any_cons, anyDynamic, ih (by simpa using h)]

end Shape

/-! ### Layout by datum -/

def Datum.part (datum : Datum) : Part := ⟨datum.isDynamic, datum.body⟩

namespace Datum

theorem any_inTail_parts (data : List Datum) : (parts data).any Part.inTail = anyDynamic data := by
  induction data with
  | nil => rfl
  | cons d data ih => rw [parts, List.any_cons, anyDynamic, ih]

end Datum

mutual

theorem Admits.isDynamic {shape : Shape} {datum : Datum} (h : Admits shape datum)
    (hd : datum.isDynamic = true) : shape.isDynamic = true := by
  cases h with
  | string _ => rfl
  | bytes _ => rfl
  | array _ => rfl
  | tuple hs => exact hs.anyDynamic hd
  | fixedArray hs =>
    have ha := hs.anyDynamic hd
    rw [Shape.anyDynamic_replicate, Bool.and_eq_true] at ha
    exact ha.2
  | _ => cases hd

theorem AdmitsAll.anyDynamic {shapes : List Shape} {data : List Datum} (h : AdmitsAll shapes data)
    (hd : Datum.anyDynamic data = true) : Shape.anyDynamic shapes = true := by
  cases h with
  | nil => exact hd
  | cons h hs =>
    rw [Datum.anyDynamic, Bool.or_eq_true] at hd
    rw [Shape.anyDynamic, Bool.or_eq_true]
    exact hd.imp h.isDynamic hs.anyDynamic

end

theorem isDynamic_eq_of_parts {shapes : List Shape} {data : List Datum}
    (h : AdmitsAll shapes data) (he : Datum.parts data = Shape.layoutParts shapes data) :
    Datum.anyDynamic data = Shape.anyDynamic shapes := by
  rw [← Datum.any_inTail_parts, he, Shape.any_inTail h.length_eq]

theorem Shape.layout_elements {element : Shape} {size : Nat} {elements : List Datum}
    (h : elements.length = size) :
    elements.map (fun d => ⟨element.isDynamic, element.layout d⟩) =
      layoutParts (List.replicate size element) elements :=
  (layoutParts_replicate h).symm

section BodyLength

variable {shapes : List Shape} {members elements : List Datum} {element : Shape} {size : Nat}

theorem tuple_body_length : ((Shape.tuple shapes).part (.tuple members)).body.length =
    ((Shape.layoutParts shapes members).map Part.size).sum := frame_length _

theorem fixedArray_body_length (h : elements.length = size) :
    ((Shape.fixedArray size element).part (.fixedArray elements)).body.length =
      ((Shape.layoutParts (List.replicate size element) elements).map Part.size).sum := by
  rw [← Shape.layout_elements h]
  exact frame_length _

theorem array_body_length : ((Shape.array element).part (.array elements)).body.length =
    32 + ((Shape.layoutParts (List.replicate elements.length element) elements).map
      Part.size).sum := by
  rw [← Shape.layout_elements rfl, ← frame_length, ← sizeWord_length elements.length,
    ← List.length_append]
  rfl

end BodyLength

mutual

theorem Admits.part_eq {shape : Shape} {datum : Datum} (h : Admits shape datum)
    (ha : shape.Aligned datum) : datum.part = shape.part datum := by
  cases h with
  | @tuple shapes members hs =>
    have hp := hs.parts_eq ha
    have hd : (Datum.tuple members).isDynamic = (Shape.tuple shapes).isDynamic :=
      isDynamic_eq_of_parts hs hp
    rw [Datum.part, Shape.part, hd, Datum.body, Shape.layout, hp]
  | @fixedArray size element elements hs =>
    have hl := (admitsAll_replicate_iff.1 hs).1
    have hp := hs.parts_eq ((Shape.allAligned_replicate hl).2 ha.2)
    have hd : (Datum.fixedArray elements).isDynamic = (Shape.fixedArray size element).isDynamic := by
      change Datum.anyDynamic elements = element.isDynamic
      rw [isDynamic_eq_of_parts hs hp, Shape.anyDynamic_replicate]
      by_cases hz : size = 0
      · simp [ha.1 hz]
      · simp [hz]
    rw [Datum.part, Shape.part, hd, Datum.body, Shape.layout, Shape.layout_elements hl, hp]
  | @array element elements hs =>
    have hp := hs.parts_eq ((Shape.allAligned_replicate rfl).2 ha)
    rw [Datum.part, Shape.part, Datum.body, Shape.layout, Shape.layout_elements rfl, hp]
    rfl
  | _ => rfl

theorem AdmitsAll.parts_eq {shapes : List Shape} {data : List Datum} (h : AdmitsAll shapes data)
    (ha : Shape.AllAligned shapes data) : Datum.parts data = Shape.layoutParts shapes data := by
  cases h with
  | nil => rfl
  | cons h hs =>
    have hp := h.part_eq ha.1
    rw [Datum.part, Shape.part] at hp
    rw [Datum.parts, Shape.layoutParts, hp, hs.parts_eq ha.2]

end

theorem size_le_of_flags {b c : Bool} {m n : Nat} (hbc : b = true → c = true) (hmn : m ≤ n) :
    (if b then 32 else 0) + m ≤ (if c then 32 else 0) + n ∧
      ((if b then 32 else 0) + m = (if c then 32 else 0) + n → b = c ∧ m = n) := by
  cases b <;> cases c
  · simp [hmn]
  · simp only [Bool.false_eq_true, if_false, if_true]
    omega
  · simp at hbc
  · simp [hmn]

mutual

/-- By its datum a part never takes more bytes than by its shape. -/
theorem Admits.size_le {shape : Shape} {datum : Datum} (h : Admits shape datum) :
    datum.part.size ≤ (shape.part datum).size ∧
      (datum.part.size = (shape.part datum).size → shape.Aligned datum) := by
  have hf := h.isDynamic
  rw [Part.size_eq, Part.size_eq]
  cases h with
  | @tuple shapes members hs =>
    obtain ⟨hle, heq⟩ := hs.size_le
    have hb : (Datum.tuple members).part.body.length = _ := frame_length _
    rw [← hb, ← tuple_body_length] at hle heq
    obtain ⟨hp, hq⟩ := size_le_of_flags hf hle
    exact ⟨hp, fun h => heq (hq h).2⟩
  | @fixedArray size element elements hs =>
    have hl := (admitsAll_replicate_iff.1 hs).1
    obtain ⟨hle, heq⟩ := hs.size_le
    have hb : (Datum.fixedArray elements).part.body.length = _ := frame_length _
    rw [← hb, ← fixedArray_body_length hl] at hle heq
    obtain ⟨hp, hq⟩ := size_le_of_flags hf hle
    refine ⟨hp, fun h => ⟨?_, (Shape.allAligned_replicate hl).1 (heq (hq h).2)⟩⟩
    intro hz
    -- Without elements the datum is static, and of the same place in the frame as its shape.
    have hd := (hq h).1
    rw [hz, List.length_eq_zero_iff] at hl
    subst hl
    exact hd.symm
  | @array element elements hs =>
    obtain ⟨hle, heq⟩ := hs.size_le
    have hb : (Datum.array elements).part.body.length =
        32 + ((Datum.parts elements).map Part.size).sum := by
      rw [← frame_length, ← sizeWord_length elements.length, ← List.length_append]
      rfl
    rw [hb, array_body_length]
    obtain ⟨hp, hq⟩ := size_le_of_flags hf (Nat.add_le_add_left hle 32)
    refine ⟨hp, fun h => (Shape.allAligned_replicate rfl).1 (heq ?_)⟩
    have := (hq h).2
    omega
  | _ => exact ⟨Nat.le_refl _, fun _ => trivial⟩

theorem AdmitsAll.size_le {shapes : List Shape} {data : List Datum} (h : AdmitsAll shapes data) :
    ((Datum.parts data).map Part.size).sum ≤ ((Shape.layoutParts shapes data).map Part.size).sum ∧
      (((Datum.parts data).map Part.size).sum =
        ((Shape.layoutParts shapes data).map Part.size).sum → Shape.AllAligned shapes data) := by
  cases h with
  | nil => exact ⟨Nat.le_refl _, fun _ => trivial⟩
  | cons h hs =>
    obtain ⟨hd, he⟩ := h.size_le
    obtain ⟨hds, hes⟩ := hs.size_le
    rw [Datum.part, Shape.part] at hd he
    simp only [Datum.parts, Shape.layoutParts, List.map_cons, List.sum_cons]
    refine ⟨Nat.add_le_add hd hds, fun h => ⟨he ?_, hes ?_⟩⟩ <;> omega

end

namespace Shape

def layoutAll (shapes : List Shape) (data : List Datum) : Bytes := frame (layoutParts shapes data)

end Shape

theorem encode_eq_layoutAll {shapes : List Shape} {data : List Datum} (h : AdmitsAll shapes data)
    (ha : Shape.AllAligned shapes data) : encode data = Shape.layoutAll shapes data := by
  rw [encode, Shape.layoutAll, h.parts_eq ha]

/-- An array of size zero with elements of a dynamic shape costs the encoding its head. -/
theorem encode_length_lt {shapes : List Shape} {data : List Datum} (h : AdmitsAll shapes data)
    (ha : ¬ Shape.AllAligned shapes data) :
    (encode data).length < (Shape.layoutAll shapes data).length := by
  obtain ⟨hle, heq⟩ := h.size_le
  rw [encode, Shape.layoutAll, frame_length, frame_length]
  exact Nat.lt_of_le_of_ne hle fun h => ha (heq h)

end Attest.Abi
