import Attest.Proofs.Abi.Layout
import Attest.Proofs.Text.Utf8

set_option autoImplicit false

namespace Attest.Abi

namespace Shape

mutual

/-- Whether each `bytesN` takes one word, as a reader assumes of it. -/
def Sized : Shape → Prop
  | .fixedBytes size => 1 ≤ size ∧ size ≤ 32
  | .tuple shapes => AllSized shapes
  | .fixedArray _ element | .array element => element.Sized
  | _ => True

def AllSized : List Shape → Prop
  | [] => True
  | shape :: shapes => shape.Sized ∧ AllSized shapes

end

theorem allSized_replicate {element : Shape} (h : element.Sized) (size : Nat) :
    AllSized (List.replicate size element) := by
  induction size with
  | zero => trivial
  | succ size ih => exact ⟨h, ih⟩

theorem readRepeated_eq (element : Shape) (data : Bytes) (count pos : Nat) :
    readRepeated (element.read data) count pos = readAll (List.replicate count element) data pos := by
  induction count generalizing pos with
  | zero => rfl
  | succ count ih =>
    rw [readRepeated, List.replicate_succ, readAll]
    simp only [ih]

end Shape

namespace Datum

mutual

def Counted : Datum → Prop
  | .tuple members => AllCounted members
  | .fixedArray elements => AllCounted elements
  | .array elements => elements.length < 2 ^ 32 ∧ AllCounted elements
  | _ => True

def AllCounted : List Datum → Prop
  | [] => True
  | datum :: data => datum.Counted ∧ AllCounted data

end

end Datum

section Words

variable {data : Bytes} {pos : Nat}

theorem read_address {a : Address} (h : data.HasAt pos (Bytes.zeros 12 ++ a.bytes.toList)) :
    Shape.address.read data pos = some (.address a, pos + 32) := by
  have hl : (Bytes.zeros 12 ++ a.bytes.toList).length = 32 := by
    rw [List.length_append, Bytes.zeros_length, Vector.length_toList]
  have hd : (Bytes.zeros 12 ++ a.bytes.toList).drop 12 = a.bytes.toList :=
    List.drop_left' (Bytes.zeros_length 12)
  rw [Shape.read, h.slice? hl]
  simp [hd, Address.ofBytes?, Bytes.exactly?_toList]

theorem read_bool {value : Bool} (h : data.HasAt pos (Bytes.zeros 31 ++ [if value then 1 else 0])) :
    Shape.bool.read data pos = some (.bool value, pos + 32) := by
  have hl : (Bytes.zeros 31 ++ [if value then 1 else 0]).length = 32 := by
    rw [List.length_append, Bytes.zeros_length, List.length_singleton]
  have ht : (Bytes.zeros 31 ++ [if value then 1 else 0]).take 31 = Bytes.zeros 31 :=
    List.take_left' (Bytes.zeros_length 31)
  have hd : (Bytes.zeros 31 ++ [if value then 1 else 0]).drop 31 = [if value then 1 else 0] :=
    List.drop_left' (Bytes.zeros_length 31)
  rw [Shape.read, h.slice? hl]
  simp only [Option.bind_eq_bind, Option.bind_some, ht, hd, Bytes.all_zeros, if_true]
  cases value <;> rfl

theorem read_uint {bits : Nat} {value : Word} (h : data.HasAt pos (bigEndian 32 value.toNat)) :
    (Shape.uint bits).read data pos = some (.uint value, pos + 32) := by
  have hv : value.toNat < 2 ^ (8 * 32) := value.isLt
  rw [Shape.read, h.slice? (bigEndian_length _ _)]
  simp [ofBigEndian_bigEndian_of_lt hv]

theorem read_fixedBytes {content : Bytes} (h : data.HasAt pos content.padRight) :
    (Shape.fixedBytes content.length).read data pos =
      some (.fixedBytes content, pos + 32) := by
  rw [Shape.read, (Bytes.HasAt.left h).slice? rfl]
  rfl

end Words

theorem headSize_eq_word {shape : Shape} {datum : Datum}
    (h : shape.isDynamic = true ∨ (shape.layout datum).length = 32) :
    (shape.part datum).headSize = 32 := by
  cases hd : shape.isDynamic <;> simp_all [Part.headSize, Shape.part]

theorem layout_address_length (a : Address) :
    (Shape.address.layout (.address a)).length = 32 := by
  rw [Shape.layout, List.length_append, Bytes.zeros_length, Vector.length_toList]

theorem layout_bool_length (value : Bool) : (Shape.bool.layout (.bool value)).length = 32 := by
  rw [Shape.layout, List.length_append, Bytes.zeros_length, List.length_singleton]

theorem layout_uint_length (bits : Nat) (value : Word) :
    ((Shape.uint bits).layout (.uint value)).length = 32 := bigEndian_length 32 value.toNat

theorem layout_fixedBytes_length {size : Nat} {content : Bytes} (hs : content.length = size)
    (hp : 1 ≤ size) (hq : size ≤ 32) :
    ((Shape.fixedBytes size).layout (.fixedBytes content)).length = 32 := by
  rw [Shape.layout, Bytes.padRight_length]
  omega

theorem read_frame {inTail : Bool} {shapes : List Shape} {members : List Datum} {data : Bytes}
    {pos : Nat} (wrap : List Datum → Datum)
    (hb : inTail = false → Shape.anyDynamic shapes = false)
    (hm : members.length = shapes.length) (hl : data.length < 2 ^ 32)
    (hr : ∀ (data : Bytes) (pos : Nat), data.length < 2 ^ 32 →
      AllPlaced data pos (Shape.layoutParts shapes members) →
      Shape.readAll shapes data pos =
        some (members, pos + headsSize (Shape.layoutParts shapes members)))
    (hp : Placed data pos ⟨inTail, Shape.layoutAll shapes members⟩) :
    (if inTail then do
      let tail ← readTail? data pos
      let (values, _) ← Shape.readAll shapes tail 0
      return (wrap values, pos + 32)
    else do
      let (values, next) ← Shape.readAll shapes data pos
      return (wrap values, next)) =
      some (wrap members, pos + Part.headSize ⟨inTail, Shape.layoutAll shapes members⟩) := by
  cases inTail with
  | true =>
    obtain ⟨start, hw, hf⟩ := hp
    have hs := hf.le_length
    have ht : (data.drop start).length < 2 ^ 32 := by
      rw [List.length_drop]
      omega
    have hv := hr _ 0 ht (allPlaced_frame hf.drop_self)
    rw [if_pos rfl, readTail?_of_hasAt hw (by omega) (by omega)]
    simp [hv, Part.headSize]
  | false =>
    have hi : ∀ part ∈ Shape.layoutParts shapes members, part.inTail = false := by
      have ha := Shape.any_inTail hm
      rw [hb rfl, List.any_eq_false] at ha
      simpa using ha
    have hv := hr data pos hl (allPlaced_inline hi hp)
    have hn : Part.headSize ⟨false, Shape.layoutAll shapes members⟩ =
        headsSize (Shape.layoutParts shapes members) := (headsSize_of_inline hi).symm
    rw [if_neg Bool.false_ne_true, hv, hn]
    rfl

mutual

theorem Admits.read {shape : Shape} {datum : Datum} (h : Admits shape datum) (hs : shape.Sized)
    (hc : datum.Counted) (data : Bytes) (pos : Nat) (hl : data.length < 2 ^ 32)
    (hp : Placed data pos (shape.part datum)) :
    shape.read data pos = some (datum, pos + (shape.part datum).headSize) := by
  cases h with
  | address a =>
    rw [headSize_eq_word (.inr (layout_address_length a))]
    exact read_address hp
  | bool value =>
    rw [headSize_eq_word (.inr (layout_bool_length value))]
    exact read_bool hp
  | uint bits value =>
    rw [headSize_eq_word (.inr (layout_uint_length bits value))]
    exact read_uint hp
  | @fixedBytes size content hn =>
    rw [headSize_eq_word (.inr (layout_fixedBytes_length hn hs.1 hs.2))]
    subst hn
    exact read_fixedBytes hp
  | string text =>
    obtain ⟨start, hw, hb⟩ := hp
    rw [Shape.read, readSized?_of_hasAt hw hb hl]
    simp only [Option.bind_eq_bind, Option.bind_some, Text.lossy_utf8, String.ofList_toList]
    rfl
  | bytes content =>
    obtain ⟨start, hw, hb⟩ := hp
    rw [Shape.read, readSized?_of_hasAt hw hb hl]
    rfl
  | @tuple shapes members hm =>
    exact read_frame .tuple id hm.length_eq hl (hm.readAll hs hc) hp
  | @fixedArray size element elements hm =>
    have he : element.Sized := hs
    have hn := (admitsAll_replicate_iff.1 hm).1
    have hf : (Shape.fixedArray size element).layout (.fixedArray elements) =
        Shape.layoutAll (List.replicate size element) elements := by
      rw [Shape.layout, Shape.layout_elements hn, Shape.layoutAll]
    have hb : element.isDynamic = false →
        Shape.anyDynamic (List.replicate size element) = false := by
      intro hd
      rw [Shape.anyDynamic_replicate, hd, Bool.and_false]
    rw [Shape.part, hf] at hp ⊢
    simp only [Shape.read, Shape.readRepeated_eq]
    exact read_frame .fixedArray hb hm.length_eq hl
      (hm.readAll (Shape.allSized_replicate he size) hc) hp
  | @array element elements hm =>
    have he : element.Sized := hs
    obtain ⟨start, hw, hb⟩ := hp
    change data.HasAt start (sizeWord elements.length ++ frame _) at hb
    rw [Shape.layout_elements rfl] at hb
    have hn := hb.le_length
    have hf := hb.right.drop_self
    rw [sizeWord_length] at hf
    have ht : (data.drop (start + 32)).length < 2 ^ 32 := by
      rw [List.length_drop]
      omega
    have hv := hm.readAll (Shape.allSized_replicate he _) hc.2 _ 0 ht (allPlaced_frame hf)
    rw [Shape.read, readSize?_of_hasAt hw (by omega)]
    simp only [Option.bind_eq_bind, Option.bind_some, readSize?_of_hasAt hb.left hc.1,
      Shape.readRepeated_eq, hv]
    rfl

theorem AdmitsAll.readAll {shapes : List Shape} {members : List Datum}
    (h : AdmitsAll shapes members) (hs : Shape.AllSized shapes) (hc : Datum.AllCounted members)
    (data : Bytes) (pos : Nat) (hl : data.length < 2 ^ 32)
    (hp : AllPlaced data pos (Shape.layoutParts shapes members)) :
    Shape.readAll shapes data pos =
      some (members, pos + headsSize (Shape.layoutParts shapes members)) := by
  cases h with
  | nil => rfl
  | cons h hm =>
    have hd := h.read hs.1 hc.1 data pos hl hp.1
    have hv := hm.readAll hs.2 hc.2 data _ hl hp.2
    rw [Shape.part] at hd
    rw [Shape.readAll, hd]
    simp only [Option.bind_eq_bind, Option.bind_some, hv]
    rw [Shape.layoutParts, headsSize, Nat.add_assoc]
    rfl

end

theorem decode_layoutAll {shapes : List Shape} {data : List Datum} (h : AdmitsAll shapes data)
    (hs : Shape.AllSized shapes) (hc : Datum.AllCounted data)
    (hl : (Shape.layoutAll shapes data).length < 2 ^ 32)
    (he : Shape.layoutAll shapes data = [] → shapes.all Shape.acceptsEmpty = true) :
    decode shapes (Shape.layoutAll shapes data) = .ok data := by
  have hr := h.readAll hs hc _ 0 hl (allPlaced_frame (Bytes.hasAt_self _))
  have hn : ((Shape.layoutAll shapes data).isEmpty && !shapes.all Shape.acceptsEmpty) = false := by
    cases ha : shapes.all Shape.acceptsEmpty with
    | true => rw [Bool.not_true, Bool.and_false]
    | false =>
      rw [Bool.not_false, Bool.and_true, List.isEmpty_eq_false_iff]
      intro hd
      rw [he hd] at ha
      cases ha
  rw [decode, hn, hr]
  rfl

end Attest.Abi
