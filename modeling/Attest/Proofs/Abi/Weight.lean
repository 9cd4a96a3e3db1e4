import Attest.Proofs.Abi.Reading

set_option autoImplicit false

/-!
# What data weigh

The weight of a shape is the number of words that a datum of it takes where it stands. A reader
moves by as many words, and the last one begins within the payload. So the words of a payload bound
the elements of an array, unless an element weighs nothing.
-/
namespace Attest.Abi

namespace Shape

mutual

/-- A datum that is read through an offset takes one word, for the offset. -/
def weight : Shape → Nat
  | .tuple shapes => if anyDynamic shapes then 1 else allWeight shapes
  | .fixedArray size element => if element.isDynamic then 1 else size * element.weight
  | _ => 1

def allWeight : List Shape → Nat
  | [] => 0
  | shape :: shapes => shape.weight + allWeight shapes

end

theorem allWeight_replicate (count : Nat) (element : Shape) :
    allWeight (List.replicate count element) = count * element.weight := by
  induction count with
  | zero => rw [Nat.zero_mul]; rfl
  | succ count ih => rw [List.replicate_succ, allWeight, ih, Nat.add_mul, Nat.one_mul, Nat.add_comm]

mutual

/-- Whether the elements of each array together weigh no more than `limit` words. -/
def Metered (limit : Nat) : Shape → Datum → Prop
  | .tuple shapes, .tuple members => AllMetered limit shapes members
  | .fixedArray _ element, .fixedArray elements => ∀ d ∈ elements, element.Metered limit d
  | .array element, .array elements =>
    elements.length * element.weight ≤ limit ∧ ∀ d ∈ elements, element.Metered limit d
  | _, _ => True

def AllMetered (limit : Nat) : List Shape → List Datum → Prop
  | shape :: shapes, datum :: data => shape.Metered limit datum ∧ AllMetered limit shapes data
  | _, _ => True

end

theorem allMetered_replicate {limit count : Nat} {element : Shape} {elements : List Datum}
    (hl : elements.length = count)
    (h : AllMetered limit (List.replicate count element) elements) :
    ∀ d ∈ elements, element.Metered limit d := by
  induction elements generalizing count with
  | nil => exact List.forall_mem_nil _
  | cons d elements ih =>
    cases hl
    exact List.forall_mem_cons.2 ⟨h.1, ih rfl h.2⟩

end Shape

section Positions

variable {data : Bytes} {pos : Nat}

theorem slice?_le {size : Nat} {part : Bytes} (h : data.slice? pos size = some part) :
    pos + size ≤ data.length :=
  (Bytes.slice?_eq_some_iff.1 h).1

theorem readSize?_le {size : Nat} (h : readSize? data pos = some size) :
    pos + 32 ≤ data.length := by
  rw [readSize?, Option.bind_eq_bind, Option.bind_eq_some_iff] at h
  obtain ⟨word, hw, -⟩ := h
  exact slice?_le hw

theorem readTail?_le {tail : Bytes} (h : readTail? data pos = some tail) :
    pos + 32 ≤ data.length ∧ tail.length ≤ data.length := by
  rw [readTail?, Option.bind_eq_bind, Option.bind_eq_some_iff] at h
  obtain ⟨start, hs, h⟩ := h
  split at h
  · cases h
    exact ⟨readSize?_le hs, by rw [List.length_drop]; omega⟩
  · cases h

theorem readSized?_le {content : Bytes} (h : readSized? data pos = some content) :
    pos + 32 ≤ data.length := by
  rw [readSized?, Option.bind_eq_bind, Option.bind_eq_some_iff] at h
  obtain ⟨start, hs, -⟩ := h
  exact readSize?_le hs

end Positions

/-- A reader moves by words, and the last of them begins within the data. -/
def Moves (weight : Nat) (data : Bytes) (pos next : Nat) : Prop :=
  next = pos + 32 * weight ∧ (weight ≠ 0 → next ≤ data.length + 32)

theorem Moves.word {data : Bytes} {pos : Nat} (h : pos ≤ data.length) :
    Moves 1 data pos (pos + 32) :=
  ⟨rfl, fun _ => Nat.add_le_add_right h 32⟩

theorem Moves.trans {v w pos mid next : Nat} {data : Bytes} (h : Moves v data pos mid)
    (hn : Moves w data mid next) : Moves (v + w) data pos next := by
  obtain ⟨hm, hv⟩ := h
  obtain ⟨hl, hw⟩ := hn
  exact ⟨by omega, fun hz => by omega⟩

theorem metered_array {element : Shape} {elements : List Datum} {data : Bytes}
    {start stop limit : Nat} (hs : start + 32 ≤ data.length) (hd : data.length / 32 ≤ limit)
    (hm : Moves (elements.length * element.weight) (data.drop (start + 32)) 0 stop) :
    elements.length * element.weight ≤ limit := by
  obtain ⟨hn, hw⟩ := hm
  rw [List.length_drop] at hw
  by_cases hz : elements.length * element.weight = 0
  · omega
  · have := hw hz
    omega

mutual

/-- A reader moves by the weight of what it reads, and the words of a payload bound the arrays that
    are read from it. -/
theorem Reads.weighed {shape : Shape} {data : Bytes} {pos next : Nat} {datum : Datum}
    (h : Reads shape data pos datum next) : Moves shape.weight data pos next ∧
      ∀ limit, data.length / 32 ≤ limit → shape.Metered limit datum := by
  cases h with
  | address hw _ => exact ⟨.word (Nat.le_of_add_right_le (slice?_le hw)), fun _ _ => trivial⟩
  | bool hw _ => exact ⟨.word (Nat.le_of_add_right_le (slice?_le hw)), fun _ _ => trivial⟩
  | uint hw => exact ⟨.word (Nat.le_of_add_right_le (slice?_le hw)), fun _ _ => trivial⟩
  | fixedBytes hc => exact ⟨.word (Nat.le_of_add_right_le (slice?_le hc)), fun _ _ => trivial⟩
  | bytes hc => exact ⟨.word (Nat.le_of_add_right_le (readSized?_le hc)), fun _ _ => trivial⟩
  | string hc => exact ⟨.word (Nat.le_of_add_right_le (readSized?_le hc)), fun _ _ => trivial⟩
  | @array element _ _ start count stop elements hs hc h =>
    have hl := (admitsAll_replicate_iff.1 h.sound.1).1
    have hn : (data.drop (start + 32)).length ≤ data.length := by
      rw [List.length_drop]
      omega
    obtain ⟨hm, ha⟩ := h.weighed
    rw [Shape.allWeight_replicate, ← hl] at hm
    refine ⟨.word (Nat.le_of_add_right_le (readSize?_le hs)), fun limit hd => ?_⟩
    exact ⟨metered_array (readSize?_le hc) hd hm,
      Shape.allMetered_replicate hl (ha limit (by omega))⟩
  | fixedArrayTail hd ht h =>
    obtain ⟨hp, hl⟩ := readTail?_le ht
    rw [Shape.weight, if_pos hd]
    refine ⟨.word (Nat.le_of_add_right_le hp), fun limit hd => ?_⟩
    exact Shape.allMetered_replicate (admitsAll_replicate_iff.1 h.sound.1).1
      (h.weighed.2 limit (by omega))
  | fixedArray hd h =>
    obtain ⟨hm, ha⟩ := h.weighed
    rw [Shape.weight, if_neg (Bool.not_eq_true _ ▸ hd), ← Shape.allWeight_replicate]
    exact ⟨hm, fun limit hd =>
      Shape.allMetered_replicate (admitsAll_replicate_iff.1 h.sound.1).1 (ha limit hd)⟩
  | tupleTail hd ht h =>
    obtain ⟨hp, hl⟩ := readTail?_le ht
    rw [Shape.weight, if_pos hd]
    exact ⟨.word (Nat.le_of_add_right_le hp), fun limit hd => h.weighed.2 limit (by omega)⟩
  | tuple hd h =>
    rw [Shape.weight, if_neg (Bool.not_eq_true _ ▸ hd)]
    exact h.weighed

theorem ReadsAll.weighed {shapes : List Shape} {data : Bytes} {pos stop : Nat}
    {members : List Datum} (h : ReadsAll shapes data pos members stop) :
    Moves (Shape.allWeight shapes) data pos stop ∧
      ∀ limit, data.length / 32 ≤ limit → Shape.AllMetered limit shapes members := by
  cases h with
  | nil => exact ⟨⟨rfl, fun hz => absurd rfl hz⟩, fun _ _ => trivial⟩
  | cons h hs =>
    exact ⟨h.weighed.1.trans hs.weighed.1,
      fun limit hd => ⟨h.weighed.2 limit hd, hs.weighed.2 limit hd⟩⟩

end

theorem decode_metered {shapes : List Shape} {data : Bytes} {values : List Datum}
    (h : decode shapes data = .ok values) : Shape.AllMetered (data.length / 32) shapes values := by
  obtain ⟨_, hr⟩ := readsAll_of_decode h
  exact hr.weighed.2 _ (Nat.le_refl _)

structure Weightless (shape : Shape) (datum : Datum) : Prop where
  reads : ∀ data pos, Reads shape data pos datum pos
  inline : datum.isDynamic = false
  body : datum.body = []

def AllWeightless (shapes : List Shape) (data : List Datum) : Prop :=
  (∀ payload pos, ReadsAll shapes payload pos data pos) ∧
    ∀ d ∈ data, d.isDynamic = false ∧ d.body = []

theorem AllWeightless.nil : AllWeightless [] [] := ⟨fun _ _ => .nil, List.forall_mem_nil _⟩

theorem AllWeightless.cons {shape : Shape} {shapes : List Shape} {datum : Datum} {data : List Datum}
    (h : Weightless shape datum) (hs : AllWeightless shapes data) :
    AllWeightless (shape :: shapes) (datum :: data) :=
  ⟨fun payload pos => .cons (h.reads payload pos) (hs.1 payload pos),
    List.forall_mem_cons.2 ⟨⟨h.inline, h.body⟩, hs.2⟩⟩

theorem Weightless.replicate {shape : Shape} {datum : Datum} (h : Weightless shape datum)
    (count : Nat) : AllWeightless (List.replicate count shape) (List.replicate count datum) := by
  induction count with
  | zero => exact .nil
  | succ count ih => exact .cons h ih

namespace AllWeightless

variable {shapes : List Shape} {data : List Datum} (h : AllWeightless shapes data)

include h

theorem inline : Datum.anyDynamic data = false := by
  rw [Datum.anyDynamic_eq, List.any_eq_false]
  exact fun d hd => Bool.not_eq_true _ ▸ (h.2 d hd).1

theorem frame_eq_nil : frame (Datum.parts data) = [] := by
  apply List.eq_nil_of_length_eq_zero
  rw [frame_length, Datum.parts_eq, List.map_map, List.sum_eq_zero_iff_forall_eq_nat,
    List.forall_mem_map]
  intro d hd
  simp [Part.size_eq, h.2 d hd]

theorem tuple (hd : Shape.anyDynamic shapes = false) : Weightless (.tuple shapes) (.tuple data) :=
  ⟨fun payload pos => .tuple hd (h.1 payload pos), h.inline, h.frame_eq_nil⟩

end AllWeightless

theorem AllWeightless.fixedArray {size : Nat} {element : Shape} {elements : List Datum}
    (h : AllWeightless (List.replicate size element) elements) (hd : element.isDynamic = false) :
    Weightless (.fixedArray size element) (.fixedArray elements) :=
  ⟨fun payload pos => .fixedArray hd (h.1 payload pos), h.inline, h.frame_eq_nil⟩

end Attest.Abi
