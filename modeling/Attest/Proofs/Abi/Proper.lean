import Attest.Proofs.Abi.RoundTrip

set_option autoImplicit false

namespace Attest.Abi

namespace Shape

mutual

/-- Whether each `bytesN` takes one word and neither an array of size zero nor an empty tuple
    occurs. -/
def Proper : Shape → Prop
  | .fixedBytes size => 1 ≤ size ∧ size ≤ 32
  | .tuple shapes => shapes ≠ [] ∧ AllProper shapes
  | .fixedArray size element => 1 ≤ size ∧ element.Proper
  | .array element => element.Proper
  | _ => True

def AllProper : List Shape → Prop
  | [] => True
  | shape :: shapes => shape.Proper ∧ AllProper shapes

end

theorem allProper_replicate {element : Shape} (h : element.Proper) (size : Nat) :
    AllProper (List.replicate size element) := by
  induction size with
  | zero => trivial
  | succ size ih => exact ⟨h, ih⟩

mutual

theorem Proper.sized {shape : Shape} (h : shape.Proper) : shape.Sized := by
  cases shape with
  | fixedBytes size => exact h
  | tuple shapes => exact AllProper.allSized h.2
  | fixedArray size element =>
    have he : element.Proper := h.2
    exact he.sized
  | array element =>
    have he : element.Proper := h
    exact he.sized
  | _ => trivial

theorem AllProper.allSized {shapes : List Shape} (h : AllProper shapes) : AllSized shapes := by
  cases shapes with
  | nil => trivial
  | cons shape shapes => exact ⟨h.1.sized, AllProper.allSized h.2⟩

end

end Shape

mutual

theorem Admits.aligned {shape : Shape} {datum : Datum} (h : Admits shape datum)
    (hp : shape.Proper) : shape.Aligned datum := by
  cases h with
  | tuple hs => exact hs.allAligned hp.2
  | @fixedArray size element elements hs =>
    have he : element.Proper := hp.2
    have hl := (admitsAll_replicate_iff.1 hs).1
    have ha := hs.allAligned (Shape.allProper_replicate he size)
    refine ⟨fun hz => ?_, (Shape.allAligned_replicate hl).1 ha⟩
    have := hp.1
    omega
  | @array element elements hs =>
    have he : element.Proper := hp
    have ha := hs.allAligned (Shape.allProper_replicate he _)
    exact (Shape.allAligned_replicate rfl).1 ha
  | _ => trivial

theorem AdmitsAll.allAligned {shapes : List Shape} {data : List Datum} (h : AdmitsAll shapes data)
    (hp : Shape.AllProper shapes) : Shape.AllAligned shapes data := by
  cases h with
  | nil => trivial
  | cons h hs => exact ⟨h.aligned hp.1, hs.allAligned hp.2⟩

end

theorem word_le_size_of {shape : Shape} {datum : Datum}
    (h : shape.isDynamic = true ∨ (shape.layout datum).length = 32) :
    32 ≤ (shape.part datum).size := by
  rw [Part.size, headSize_eq_word h]
  exact Nat.le_add_right 32 _

mutual

theorem Admits.word_le_size {shape : Shape} {datum : Datum} (h : Admits shape datum)
    (hp : shape.Proper) : 32 ≤ (shape.part datum).size := by
  cases h with
  | address a => exact word_le_size_of (.inr (layout_address_length a))
  | bool value => exact word_le_size_of (.inr (layout_bool_length value))
  | uint bits value => exact word_le_size_of (.inr (layout_uint_length bits value))
  | fixedBytes hn => exact word_le_size_of (.inr (layout_fixedBytes_length hn hp.1 hp.2))
  | string text => exact word_le_size_of (.inl rfl)
  | bytes data => exact word_le_size_of (.inl rfl)
  | array hs => exact word_le_size_of (.inl rfl)
  | @tuple shapes members hs =>
    have hw := hs.words_le_size hp.2
    have hn := List.length_pos_iff.2 hp.1
    rw [hs.length_eq] at hw
    rw [Part.size_eq, tuple_body_length]
    omega
  | @fixedArray size element elements hs =>
    have he : element.Proper := hp.2
    have hn := hp.1
    have hm := (admitsAll_replicate_iff.1 hs).1
    have hw := hs.words_le_size (Shape.allProper_replicate he size)
    rw [Part.size_eq, fixedArray_body_length hm]
    omega

theorem AdmitsAll.words_le_size {shapes : List Shape} {data : List Datum}
    (h : AdmitsAll shapes data) (hp : Shape.AllProper shapes) :
    32 * data.length ≤ ((Shape.layoutParts shapes data).map Part.size).sum := by
  cases h with
  | nil => exact Nat.zero_le _
  | cons h hs =>
    have hd := h.word_le_size hp.1
    have hw := hs.words_le_size hp.2
    rw [Shape.part] at hd
    rw [Shape.layoutParts, List.map_cons, List.sum_cons, List.length_cons]
    omega

end

mutual

/-- Elements take a word each, so there are fewer of them than bytes. -/
theorem Admits.counted {shape : Shape} {datum : Datum} (h : Admits shape datum)
    (hp : shape.Proper) (hl : (shape.part datum).size < 2 ^ 32) : datum.Counted := by
  rw [Part.size_eq] at hl
  cases h with
  | @tuple shapes members hs =>
    rw [tuple_body_length] at hl
    exact hs.allCounted hp.2 (by omega)
  | @fixedArray size element elements hs =>
    have he : element.Proper := hp.2
    have hm := (admitsAll_replicate_iff.1 hs).1
    rw [fixedArray_body_length hm] at hl
    exact hs.allCounted (Shape.allProper_replicate he size) (by omega)
  | @array element elements hs =>
    have he : element.Proper := hp
    have ha := Shape.allProper_replicate he elements.length
    rw [array_body_length] at hl
    have hw := hs.words_le_size ha
    exact ⟨by omega, hs.allCounted ha (by omega)⟩
  | _ => trivial

theorem AdmitsAll.allCounted {shapes : List Shape} {data : List Datum} (h : AdmitsAll shapes data)
    (hp : Shape.AllProper shapes)
    (hl : ((Shape.layoutParts shapes data).map Part.size).sum < 2 ^ 32) :
    Datum.AllCounted data := by
  cases h with
  | nil => trivial
  | @cons shape datum shapes data h hs =>
    have hc : ((Shape.layoutParts (shape :: shapes) (datum :: data)).map Part.size).sum =
        (shape.part datum).size + ((Shape.layoutParts shapes data).map Part.size).sum := by
      rw [Shape.layoutParts, List.map_cons, List.sum_cons]
      rfl
    exact ⟨h.counted hp.1 (by omega), hs.allCounted hp.2 (by omega)⟩

end

theorem decode_encode {shapes : List Shape} {data : List Datum} (h : AdmitsAll shapes data)
    (hp : Shape.AllProper shapes) (hl : (encode data).length < 2 ^ 32) :
    decode shapes (encode data) = .ok data := by
  have he := encode_eq_layoutAll h (h.allAligned hp)
  have hf : (Shape.layoutAll shapes data).length =
      ((Shape.layoutParts shapes data).map Part.size).sum := frame_length _
  rw [he] at hl ⊢
  apply decode_layoutAll h (Shape.AllProper.allSized hp) (h.allCounted hp (hf ▸ hl)) hl
  intro hn
  have hw := h.words_le_size hp
  rw [← hf, hn, h.length_eq, List.length_nil] at hw
  rw [List.eq_nil_of_length_eq_zero (show shapes.length = 0 by omega)]
  rfl

end Attest.Abi
