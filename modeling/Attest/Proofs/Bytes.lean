import Mathlib.Algebra.Order.Ring.Nat
import Attest.Abi.Decoding
import Attest.Abi.Encoding

set_option autoImplicit false

namespace Attest

namespace Bytes

def HasAt (data : Bytes) (pos : Nat) (part : Bytes) : Prop :=
  ∃ front back, data = front ++ part ++ back ∧ front.length = pos

theorem hasAt_self (data : Bytes) : data.HasAt 0 data := ⟨[], [], by simp, rfl⟩

theorem hasAt_nil {data : Bytes} {pos : Nat} (h : pos ≤ data.length) : data.HasAt pos [] :=
  ⟨data.take pos, data.drop pos, by simp, by rw [List.length_take, Nat.min_eq_left h]⟩

theorem slice?_eq_some_iff {data part : Bytes} {start size : Nat} :
    data.slice? start size = some part ↔
      start + size ≤ data.length ∧ (data.drop start).take size = part := by
  unfold slice?
  split <;> simp_all

theorem exactly?_eq_some_iff {n : Nat} {data : Bytes} {v : Vector UInt8 n} :
    data.exactly? n = some v ↔ v.toList = data := by
  constructor
  · exact toList_of_exactly?
  · rintro rfl
    exact exactly?_toList v

namespace HasAt

variable {data part : Bytes} {pos : Nat}

theorem le_length (h : data.HasAt pos part) : pos + part.length ≤ data.length := by
  obtain ⟨front, back, rfl, rfl⟩ := h
  simp

theorem left {first second : Bytes} (h : data.HasAt pos (first ++ second)) :
    data.HasAt pos first := by
  obtain ⟨front, back, rfl, rfl⟩ := h
  exact ⟨front, second ++ back, by simp, rfl⟩

theorem right {first second : Bytes} (h : data.HasAt pos (first ++ second)) :
    data.HasAt (pos + first.length) second := by
  obtain ⟨front, back, rfl, rfl⟩ := h
  exact ⟨front ++ first, back, by simp, by simp⟩

theorem drop {start : Nat} (h : data.HasAt (start + pos) part) :
    Bytes.HasAt (data.drop start) pos part := by
  obtain ⟨front, back, rfl, hf⟩ := h
  refine ⟨front.drop start, back, ?_, ?_⟩
  · rw [List.append_assoc, List.append_assoc, List.drop_append_of_le_length (by omega)]
  · rw [List.length_drop, hf, Nat.add_sub_cancel_left]

theorem drop_self (h : data.HasAt pos part) : Bytes.HasAt (data.drop pos) 0 part :=
  HasAt.drop h

theorem slice? (h : data.HasAt pos part) {size : Nat} (hs : part.length = size) :
    data.slice? pos size = some part := by
  have hl := h.le_length
  obtain ⟨front, back, rfl, rfl⟩ := h
  rw [Bytes.slice?, if_pos (by omega), List.append_assoc, List.drop_left, ← hs, List.take_left]

end HasAt

theorem zeros_length (n : Nat) : (zeros n).length = n := List.length_replicate

theorem all_zeros (n : Nat) : (zeros n).all (· == 0) = true := by
  simp [zeros]

theorem padRight_length (data : Bytes) :
    data.padRight.length = data.length + (32 - data.length % 32) % 32 := by
  rw [padRight, List.length_append, zeros_length]

end Bytes

theorem ofBigEndian_bigEndian_of_lt {k n : Nat} (h : n < 2 ^ (8 * k)) :
    ofBigEndian (bigEndian k n) = n := by
  rw [ofBigEndian_bigEndian, Nat.one_shiftLeft, Nat.mod_eq_of_lt h]

theorem ofBigEndian_lt (data : Bytes) : ofBigEndian data < 2 ^ (8 * data.length) := by
  have h := ofBigEndian_bigEndian data.length (ofBigEndian data)
  rw [bigEndian_ofBigEndian, Nat.one_shiftLeft] at h
  have hm := Nat.mod_lt (ofBigEndian data) (Nat.two_pow_pos (8 * data.length))
  omega

theorem bigEndian_add (j k n : Nat) :
    bigEndian (j + k) n = bigEndian j (n / 256 ^ k) ++ bigEndian k n := by
  induction k generalizing n with
  | zero => simp [bigEndian]
  | succ k ih =>
    have hp : n / 256 / 256 ^ k = n / 256 ^ (k + 1) := by
      rw [Nat.div_div_eq_div_mul, Nat.pow_succ']
    rw [← Nat.add_assoc, bigEndian, ih, hp, bigEndian, List.append_assoc]

theorem bigEndian_zero (k : Nat) : bigEndian k 0 = Bytes.zeros k := by
  induction k with
  | zero => rfl
  | succ k ih =>
    rw [bigEndian, Nat.zero_div, ih]
    exact List.replicate_succ'.symm

theorem Bytes.takeFirst_toList {n : Nat} {data : Bytes} (h : data.length = n) :
    (data.takeFirst n).toList = data := by
  change (data ++ zeros n).take n = data
  exact List.take_left' h

/-- The last bytes, with zeros on the left of fewer, are the big-endian form of the number that all of
    them are. -/
theorem Bytes.takeLast_toList (n : Nat) (data : Bytes) :
    (data.takeLast n).toList = bigEndian n (ofBigEndian data) := by
  have hd := bigEndian_ofBigEndian data
  change zeros (n - data.length) ++ data.drop (data.length - n) = _
  rcases Nat.le_total n data.length with h | h
  · have hs : data.length = data.length - n + n := by omega
    rw [hs, bigEndian_add] at hd
    have hb : (bigEndian (data.length - n) (ofBigEndian data / 256 ^ n) ++
        bigEndian n (ofBigEndian data)).drop (data.length - n) = bigEndian n (ofBigEndian data) :=
      List.drop_left' (bigEndian_length _ _)
    rw [hd] at hb
    rw [hb, Nat.sub_eq_zero_of_le h]
    rfl
  · have hs : n = n - data.length + data.length := by omega
    have hz : ofBigEndian data / 256 ^ data.length = 0 := by
      have hl := ofBigEndian_lt data
      rw [Nat.pow_mul] at hl
      exact Nat.div_eq_of_lt hl
    conv_rhs => rw [hs, bigEndian_add, hz, bigEndian_zero, hd]
    rw [Nat.sub_eq_zero_of_le h]
    rfl

namespace Abi

theorem sizeWord_length (n : Nat) : (sizeWord n).length = 32 := by
  rw [sizeWord, List.length_append, Bytes.zeros_length, bigEndian_length]

variable {data : Bytes} {pos : Nat}

theorem readSize?_of_hasAt {n : Nat} (h : data.HasAt pos (sizeWord n)) (hn : n < 2 ^ 32) :
    readSize? data pos = some n := by
  have ht : (sizeWord n).take 28 = Bytes.zeros 28 := List.take_left' (Bytes.zeros_length 28)
  have hd : (sizeWord n).drop 28 = bigEndian 4 n := List.drop_left' (Bytes.zeros_length 28)
  rw [readSize?, h.slice? (sizeWord_length n)]
  simp only [Option.bind_eq_bind, Option.bind_some, ht, hd, Bytes.all_zeros, if_true]
  rw [ofBigEndian_bigEndian_of_lt hn]

theorem readTail?_of_hasAt {start : Nat} (h : data.HasAt pos (sizeWord start))
    (hs : start < 2 ^ 32) (hl : start ≤ data.length) :
    readTail? data pos = some (data.drop start) := by
  rw [readTail?, readSize?_of_hasAt h hs]
  simp [hl]

theorem readSized?_of_hasAt {start : Nat} {content : Bytes} (h : data.HasAt pos (sizeWord start))
    (hs : data.HasAt start (sized content)) (hl : data.length < 2 ^ 32) :
    readSized? data pos = some content := by
  have hb := hs.le_length
  rw [sized, List.length_append, sizeWord_length, Bytes.padRight_length] at hb
  have hc := hs.right.left
  rw [sizeWord_length] at hc
  rw [readSized?, readSize?_of_hasAt h (by omega)]
  simp only [Option.bind_eq_bind, Option.bind_some]
  rw [readSize?_of_hasAt hs.left (by omega)]
  exact hc.slice? rfl

end Abi

end Attest
