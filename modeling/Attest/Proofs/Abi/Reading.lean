import Attest.Proofs.Abi.RoundTrip

set_option autoImplicit false

namespace Attest.Abi

mutual

/-- Whether a datum of a shape is read at a position, to be followed by what stands at `next`. -/
inductive Reads : Shape → Bytes → Nat → Datum → Nat → Prop
  | address {data word : Bytes} {pos : Nat} {a : Address} (hw : data.slice? pos 32 = some word)
    (ha : Address.ofBytes? (word.drop 12) = some a) :
    Reads .address data pos (.address a) (pos + 32)
  | bool {data word : Bytes} {pos : Nat} (hw : data.slice? pos 32 = some word)
    (hz : (word.take 31).all (· == 0) = true) :
    Reads .bool data pos (.bool (word.drop 31 == [1])) (pos + 32)
  | uint {bits : Nat} {data word : Bytes} {pos : Nat} (hw : data.slice? pos 32 = some word) :
    Reads (.uint bits) data pos (.uint (BitVec.ofNat 256 (ofBigEndian word))) (pos + 32)
  | fixedBytes {size : Nat} {data content : Bytes} {pos : Nat}
    (hc : data.slice? pos size = some content) :
    Reads (.fixedBytes size) data pos (.fixedBytes content) (pos + 32)
  | bytes {data content : Bytes} {pos : Nat} (hc : readSized? data pos = some content) :
    Reads .bytes data pos (.bytes content) (pos + 32)
  | string {data content : Bytes} {pos : Nat} (hc : readSized? data pos = some content) :
    Reads .string data pos (.string (String.ofList (Text.lossy content))) (pos + 32)
  | array {element : Shape} {data : Bytes} {pos start count stop : Nat} {elements : List Datum}
    (hs : readSize? data pos = some start) (hc : readSize? data start = some count)
    (h : ReadsAll (List.replicate count element) (data.drop (start + 32)) 0 elements stop) :
    Reads (.array element) data pos (.array elements) (pos + 32)
  | fixedArrayTail {size : Nat} {element : Shape} {data tail : Bytes} {pos stop : Nat}
    {elements : List Datum} (hd : element.isDynamic = true) (ht : readTail? data pos = some tail)
    (h : ReadsAll (List.replicate size element) tail 0 elements stop) :
    Reads (.fixedArray size element) data pos (.fixedArray elements) (pos + 32)
  | fixedArray {size : Nat} {element : Shape} {data : Bytes} {pos next : Nat}
    {elements : List Datum} (hd : element.isDynamic = false)
    (h : ReadsAll (List.replicate size element) data pos elements next) :
    Reads (.fixedArray size element) data pos (.fixedArray elements) next
  | tupleTail {shapes : List Shape} {data tail : Bytes} {pos stop : Nat} {members : List Datum}
    (hd : Shape.anyDynamic shapes = true) (ht : readTail? data pos = some tail)
    (h : ReadsAll shapes tail 0 members stop) :
    Reads (.tuple shapes) data pos (.tuple members) (pos + 32)
  | tuple {shapes : List Shape} {data : Bytes} {pos next : Nat} {members : List Datum}
    (hd : Shape.anyDynamic shapes = false) (h : ReadsAll shapes data pos members next) :
    Reads (.tuple shapes) data pos (.tuple members) next

inductive ReadsAll : List Shape → Bytes → Nat → List Datum → Nat → Prop
  | nil {data : Bytes} {pos : Nat} : ReadsAll [] data pos [] pos
  | cons {shape : Shape} {shapes : List Shape} {data : Bytes} {pos next stop : Nat} {datum : Datum}
    {members : List Datum} (h : Reads shape data pos datum next)
    (hs : ReadsAll shapes data next members stop) :
    ReadsAll (shape :: shapes) data pos (datum :: members) stop

end

section Readers

variable {data : Bytes} {pos next stop : Nat}

theorem readsAll_replicate {element : Shape}
    (he : ∀ {pos next : Nat} {datum : Datum}, element.read data pos = some (datum, next) →
      Reads element data pos datum next)
    {count : Nat} {elements : List Datum}
    (h : readRepeated (element.read data) count pos = some (elements, stop)) :
    ReadsAll (List.replicate count element) data pos elements stop := by
  induction count generalizing pos elements with
  | zero =>
    cases h
    exact .nil
  | succ count ih =>
    simp only [readRepeated, Option.bind_eq_bind, Option.bind_eq_some_iff] at h
    obtain ⟨⟨datum, next⟩, hd, ⟨rest, last⟩, hs, h⟩ := h
    cases h
    exact .cons (he hd) (ih hs)

mutual

theorem Shape.reads (shape : Shape) {data : Bytes} {pos next : Nat} {datum : Datum}
    (h : shape.read data pos = some (datum, next)) : Reads shape data pos datum next := by
  cases shape with
  | address =>
    simp only [Shape.read, Option.bind_eq_bind, Option.bind_eq_some_iff] at h
    obtain ⟨word, hw, a, ha, h⟩ := h
    cases h
    exact .address hw ha
  | bool =>
    simp only [Shape.read, Option.bind_eq_bind, Option.bind_eq_some_iff] at h
    obtain ⟨word, hw, h⟩ := h
    split at h
    · rename_i hz
      cases h
      exact .bool hw hz
    · cases h
  | uint bits =>
    simp only [Shape.read, Option.bind_eq_bind, Option.bind_eq_some_iff] at h
    obtain ⟨word, hw, h⟩ := h
    cases h
    exact .uint hw
  | fixedBytes size =>
    simp only [Shape.read, Option.bind_eq_bind, Option.bind_eq_some_iff] at h
    obtain ⟨content, hc, h⟩ := h
    cases h
    exact .fixedBytes hc
  | string =>
    simp only [Shape.read, Option.bind_eq_bind, Option.bind_eq_some_iff] at h
    obtain ⟨content, hc, h⟩ := h
    cases h
    exact .string hc
  | bytes =>
    simp only [Shape.read, Option.bind_eq_bind, Option.bind_eq_some_iff] at h
    obtain ⟨content, hc, h⟩ := h
    cases h
    exact .bytes hc
  | array element =>
    simp only [Shape.read, Option.bind_eq_bind, Option.bind_eq_some_iff] at h
    obtain ⟨start, hs, count, hc, ⟨elements, stop⟩, hr, h⟩ := h
    cases h
    exact .array hs hc (readsAll_replicate element.reads hr)
  | fixedArray size element =>
    rw [Shape.read] at h
    split at h
    · rename_i hd
      simp only [Option.bind_eq_bind, Option.bind_eq_some_iff] at h
      obtain ⟨tail, ht, ⟨elements, stop⟩, hr, h⟩ := h
      cases h
      exact .fixedArrayTail hd ht (readsAll_replicate element.reads hr)
    · rename_i hd
      simp only [Option.bind_eq_bind, Option.bind_eq_some_iff] at h
      obtain ⟨⟨elements, stop⟩, hr, h⟩ := h
      cases h
      exact .fixedArray (Bool.not_eq_true _ ▸ hd) (readsAll_replicate element.reads hr)
  | tuple shapes =>
    rw [Shape.read] at h
    split at h
    · rename_i hd
      simp only [Option.bind_eq_bind, Option.bind_eq_some_iff] at h
      obtain ⟨tail, ht, ⟨members, stop⟩, hr, h⟩ := h
      cases h
      exact .tupleTail hd ht (Shape.readsAll shapes hr)
    · rename_i hd
      simp only [Option.bind_eq_bind, Option.bind_eq_some_iff] at h
      obtain ⟨⟨members, stop⟩, hr, h⟩ := h
      cases h
      exact .tuple (Bool.not_eq_true _ ▸ hd) (Shape.readsAll shapes hr)

theorem Shape.readsAll (shapes : List Shape) {data : Bytes} {pos stop : Nat}
    {members : List Datum} (h : Shape.readAll shapes data pos = some (members, stop)) :
    ReadsAll shapes data pos members stop := by
  cases shapes with
  | nil =>
    cases h
    exact .nil
  | cons shape shapes =>
    simp only [Shape.readAll, Option.bind_eq_bind, Option.bind_eq_some_iff] at h
    obtain ⟨⟨datum, next⟩, hd, ⟨rest, last⟩, hs, h⟩ := h
    cases h
    exact .cons (shape.reads hd) (Shape.readsAll shapes hs)

end

mutual

theorem Reads.read {shape : Shape} {data : Bytes} {pos next : Nat} {datum : Datum}
    (h : Reads shape data pos datum next) : shape.read data pos = some (datum, next) := by
  cases h with
  | address hw ha =>
    rw [Shape.read, hw]
    simp only [Option.bind_eq_bind, Option.bind_some, ha]
    rfl
  | bool hw hz =>
    rw [Shape.read, hw]
    simp only [Option.bind_eq_bind, Option.bind_some, hz, if_true]
  | uint hw =>
    rw [Shape.read, hw]
    rfl
  | fixedBytes hc =>
    rw [Shape.read, hc]
    rfl
  | bytes hc =>
    rw [Shape.read, hc]
    rfl
  | string hc =>
    rw [Shape.read, hc]
    rfl
  | array hs hc h =>
    rw [Shape.read, hs]
    simp only [Option.bind_eq_bind, Option.bind_some, hc, Shape.readRepeated_eq, h.readAll]
    rfl
  | fixedArrayTail hd ht h =>
    rw [Shape.read, if_pos hd, ht]
    simp only [Option.bind_eq_bind, Option.bind_some, Shape.readRepeated_eq, h.readAll]
    rfl
  | fixedArray hd h =>
    rw [Shape.read, if_neg (Bool.not_eq_true _ ▸ hd), Shape.readRepeated_eq, h.readAll]
    rfl
  | tupleTail hd ht h =>
    rw [Shape.read, if_pos hd, ht]
    simp only [Option.bind_eq_bind, Option.bind_some, h.readAll]
    rfl
  | tuple hd h =>
    rw [Shape.read, if_neg (Bool.not_eq_true _ ▸ hd), h.readAll]
    rfl

theorem ReadsAll.readAll {shapes : List Shape} {data : Bytes} {pos stop : Nat}
    {members : List Datum} (h : ReadsAll shapes data pos members stop) :
    Shape.readAll shapes data pos = some (members, stop) := by
  cases h with
  | nil => rfl
  | cons h hs =>
    rw [Shape.readAll, h.read]
    simp only [Option.bind_eq_bind, Option.bind_some, hs.readAll]
    rfl

end

end Readers

theorem readSize?_lt {data : Bytes} {pos size : Nat} (h : readSize? data pos = some size) :
    size < 2 ^ 32 := by
  rw [readSize?, Option.bind_eq_bind, Option.bind_eq_some_iff] at h
  obtain ⟨word, hw, h⟩ := h
  have hl := Bytes.slice?_length hw
  split at h
  · cases h
    have hb := ofBigEndian_lt (word.drop 28)
    rw [List.length_drop, hl] at hb
    exact hb
  · cases h

mutual

theorem Reads.sound {shape : Shape} {data : Bytes} {pos next : Nat} {datum : Datum}
    (h : Reads shape data pos datum next) : Admits shape datum ∧ datum.Counted := by
  cases h with
  | address _ _ => exact ⟨.address _, trivial⟩
  | bool _ _ => exact ⟨.bool _, trivial⟩
  | uint _ => exact ⟨.uint _ _, trivial⟩
  | fixedBytes hc => exact ⟨.fixedBytes (Bytes.slice?_length hc), trivial⟩
  | bytes _ => exact ⟨.bytes _, trivial⟩
  | string _ => exact ⟨.string _, trivial⟩
  | array _ hc h =>
    obtain ⟨ha, hn⟩ := h.sound
    have hl := (admitsAll_replicate_iff.1 ha).1
    subst hl
    exact ⟨.array ha, readSize?_lt hc, hn⟩
  | fixedArrayTail _ _ h => exact ⟨.fixedArray h.sound.1, h.sound.2⟩
  | fixedArray _ h => exact ⟨.fixedArray h.sound.1, h.sound.2⟩
  | tupleTail _ _ h => exact ⟨.tuple h.sound.1, h.sound.2⟩
  | tuple _ h => exact ⟨.tuple h.sound.1, h.sound.2⟩

theorem ReadsAll.sound {shapes : List Shape} {data : Bytes} {pos stop : Nat} {members : List Datum}
    (h : ReadsAll shapes data pos members stop) :
    AdmitsAll shapes members ∧ Datum.AllCounted members := by
  cases h with
  | nil => exact ⟨.nil, trivial⟩
  | cons h hs => exact ⟨.cons h.sound.1 hs.sound.1, h.sound.2, hs.sound.2⟩

end

theorem readsAll_of_decode {shapes : List Shape} {data : Bytes} {values : List Datum}
    (h : decode shapes data = .ok values) : ∃ stop, ReadsAll shapes data 0 values stop := by
  rw [decode] at h
  split at h
  · cases h
  · split at h
    · rename_i stop hr
      cases h
      exact ⟨stop, Shape.readsAll shapes hr⟩
    · cases h

theorem decode_sound {shapes : List Shape} {data : Bytes} {values : List Datum}
    (h : decode shapes data = .ok values) :
    AdmitsAll shapes values ∧ Datum.AllCounted values := by
  obtain ⟨_, hr⟩ := readsAll_of_decode h
  exact hr.sound

theorem acceptsEmpty_of_decode_nil {shapes : List Shape} {values : List Datum}
    (h : decode shapes [] = .ok values) : shapes.all Shape.acceptsEmpty = true := by
  cases ha : shapes.all Shape.acceptsEmpty with
  | true => rfl
  | false =>
    rw [decode, ha] at h
    cases h

/-- Decoding undoes encoding of aligned data exactly when length words can hold the lengths of the
    arrays, and when no bytes at all are read as a payload. -/
theorem decode_encode_iff {shapes : List Shape} {data : List Datum} (h : AdmitsAll shapes data)
    (hs : Shape.AllSized shapes) (ha : Shape.AllAligned shapes data)
    (hl : (encode data).length < 2 ^ 32) :
    decode shapes (encode data) = .ok data ↔
      Datum.AllCounted data ∧ (encode data = [] → shapes.all Shape.acceptsEmpty = true) := by
  constructor
  · intro hd
    refine ⟨(decode_sound hd).2, fun hn => ?_⟩
    rw [hn] at hd
    exact acceptsEmpty_of_decode_nil hd
  · intro hx
    obtain ⟨hc, he⟩ := hx
    have hf := encode_eq_layoutAll h ha
    rw [hf] at hl he ⊢
    exact decode_layoutAll h hs hc hl he

end Attest.Abi
