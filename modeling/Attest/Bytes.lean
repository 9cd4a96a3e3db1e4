set_option autoImplicit false

namespace Attest

abbrev Bytes := List UInt8

abbrev Word := BitVec 256

namespace Bytes

def zeros (n : Nat) : Bytes := List.replicate n 0

def slice? (data : Bytes) (start size : Nat) : Option Bytes :=
  if start + size ≤ data.length then some ((data.drop start).take size) else none

def padRight (data : Bytes) : Bytes := data ++ zeros ((32 - data.length % 32) % 32)

def exactly? (n : Nat) (data : Bytes) : Option (Vector UInt8 n) :=
  if h : data.length = n then some ⟨data.toArray, by simpa using h⟩ else none

def takeFirst (n : Nat) (data : Bytes) : Vector UInt8 n :=
  ⟨((data ++ zeros n).take n).toArray, by simp [zeros]⟩

def takeLast (n : Nat) (data : Bytes) : Vector UInt8 n :=
  ⟨(zeros (n - data.length) ++ data.drop (data.length - n)).toArray, by simp [zeros]; omega⟩

theorem slice?_length {data part : Bytes} {start size : Nat}
    (h : data.slice? start size = some part) : part.length = size := by
  unfold slice? at h
  split at h
  · cases h
    simp
    omega
  · cases h

theorem exactly?_toList {n : Nat} (v : Vector UInt8 n) : exactly? n v.toList = some v := by
  simp [exactly?, Vector.toList]

theorem toList_of_exactly? {n : Nat} {data : Bytes} {v : Vector UInt8 n}
    (h : exactly? n data = some v) : v.toList = data := by
  unfold exactly? at h
  split at h
  · cases h
    rfl
  · cases h

end Bytes

def bigEndian : Nat → Nat → Bytes
  | 0, _ => []
  | k + 1, n => bigEndian k (n / 256) ++ [UInt8.ofNat n]

def ofBigEndian (data : Bytes) : Nat := data.foldl (fun n b => n * 256 + b.toNat) 0

theorem bigEndian_length (k n : Nat) : (bigEndian k n).length = k := by
  induction k generalizing n with
  | zero => rfl
  | succ k ih => simp [bigEndian, ih]

theorem ofBigEndian_concat (data : Bytes) (b : UInt8) :
    ofBigEndian (data ++ [b]) = ofBigEndian data * 256 + b.toNat := by
  simp [ofBigEndian]

theorem ofBigEndian_bigEndian (k n : Nat) :
    ofBigEndian (bigEndian k n) = n % 1 <<< (8 * k) := by
  induction k generalizing n with
  | zero => simp [bigEndian, ofBigEndian, Nat.mod_one]
  | succ k ih =>
    have h : 1 <<< (8 * (k + 1)) = 256 * 1 <<< (8 * k) := by
      rw [Nat.mul_succ, Nat.shiftLeft_add, Nat.shiftLeft_eq _ 8, Nat.mul_comm]
    rw [bigEndian, ofBigEndian_concat, ih, h, Nat.mod_mul, UInt8.toNat_ofNat']
    omega

theorem bigEndian_ofBigEndian (data : Bytes) : bigEndian data.length (ofBigEndian data) = data := by
  suffices h : ∀ k, ∀ data : Bytes, data.length = k → bigEndian k (ofBigEndian data) = data from
    h _ data rfl
  intro k
  induction k with
  | zero => intro data h; simp_all [bigEndian]
  | succ k ih =>
    intro data h
    obtain ⟨front, last, rfl⟩ : ∃ front last, data = front ++ [last] :=
      ⟨data.dropLast, data.getLast (by rintro rfl; simp at h),
        (List.dropLast_concat_getLast _).symm⟩
    have hb := last.toNat_lt
    have hd : ofBigEndian (front ++ [last]) / 256 = ofBigEndian front := by
      rw [ofBigEndian_concat]; omega
    have hm : UInt8.ofNat (ofBigEndian (front ++ [last])) = last := by
      rw [ofBigEndian_concat]
      apply UInt8.toNat_inj.1
      simp
    rw [bigEndian, hd, hm, ih front (by simpa using h)]

end Attest
