import Attest.Proofs.Conformance
import Attest.Host.Conversion

set_option autoImplicit false

namespace Attest

theorem UintWidth.bits_le (width : UintWidth) : width.bits ≤ 64 := by
  cases width <;> decide

theorem UintWidth.toNat_lt {width : UintWidth} (x : BitVec width.bits) :
    x.toNat < 2 ^ 256 := by
  have hw : 2 ^ width.bits ≤ 2 ^ 256 :=
    Nat.pow_le_pow_right (by omega) (Nat.le_trans width.bits_le (by omega))
  exact Nat.lt_of_lt_of_le x.isLt hw

namespace Scalar

theorem decodeUint_eq_ok_iff {width : UintWidth} {n : Word} {x : BitVec width.bits} :
    decodeUint width (.uint n) = .ok x ↔
      (.ok (.uint (BitVec.ofNat 256 x.toNat)) : Result Value) = .ok (.uint n) := by
  have hx := UintWidth.toNat_lt x
  rw [decodeUint, Nat.one_shiftLeft, Except.ok.injEq, Value.uint.injEq]
  constructor
  · intro h
    split at h
    · rename_i hn
      cases h
      rw [BitVec.toNat_ofNat, Nat.mod_eq_of_lt hn, BitVec.ofNat_toNat, BitVec.setWidth_eq]
    · cases h
  · rintro rfl
    have ht : (BitVec.ofNat 256 x.toNat).toNat = x.toNat := by
      rw [BitVec.toNat_ofNat, Nat.mod_eq_of_lt hx]
    rw [ht, if_pos x.isLt, BitVec.ofNat_toNat, BitVec.setWidth_eq]

theorem encodeNatural_eq_ok_iff {n : Nat} {v : Value} :
    encodeNatural n = .ok v ↔ ∃ word : Word, v = .uint word ∧ word.toNat = n := by
  rw [encodeNatural, Nat.one_shiftLeft]
  constructor
  · intro h
    split at h
    · rename_i hn
      cases h
      exact ⟨_, rfl, by rw [BitVec.toNat_ofNat, Nat.mod_eq_of_lt hn]⟩
    · cases h
  · intro hx
    obtain ⟨word, rfl, rfl⟩ := hx
    rw [if_pos word.isLt, BitVec.ofNat_toNat, BitVec.setWidth_eq]

theorem natural_eq_ok_iff {n : Word} {x : Nat} :
    (.ok n.toNat : Result Nat) = .ok x ↔ encodeNatural x = .ok (.uint n) := by
  rw [encodeNatural_eq_ok_iff]
  simp

theorem decodeBytes32_eq_ok_iff {data : Bytes} {x : Vector UInt8 32} :
    decodeBytes32 (.fixedBytes data) = .ok x ↔
      (.ok (.fixedBytes x.toList) : Result Value) = .ok (.fixedBytes data) := by
  rw [Except.ok.injEq, Value.fixedBytes.injEq, ← Bytes.exactly?_eq_some_iff, decodeBytes32]
  cases data.exactly? 32 <;> simp

theorem uid_eq_ok_iff {data : Bytes} {x : Uid} :
    (decodeBytes32 (.fixedBytes data)).map Uid.mk = .ok x ↔
      (.ok (.fixedBytes x.bytes.toList) : Result Value) = .ok (.fixedBytes data) := by
  rw [Result.map_eq_ok, ← decodeBytes32_eq_ok_iff]
  constructor
  · intro hx
    obtain ⟨bytes, hb, rfl⟩ := hx
    exact hb
  · intro h
    exact ⟨x.bytes, h, rfl⟩

theorem ok_eq_ok_iff {α : Type} {wrap : α → Value} (hw : Function.Injective wrap) {a b : α} :
    (.ok a : Result α) = .ok b ↔ (.ok (wrap b) : Result Value) = .ok (wrap a) := by
  rw [Except.ok.injEq, Except.ok.injEq, hw.eq_iff, eq_comm]

theorem decode_eq_ok_iff {s : Scalar} {v : Value} {x : s.Val} (h : HasType s.descriptor v) :
    s.decode v = .ok x ↔ s.encode x = .ok v := by
  cases s with
  | uint width =>
    cases h with
    | uint _ n => exact decodeUint_eq_ok_iff
  | word =>
    cases h with
    | uint256 n => exact ok_eq_ok_iff fun _ _ => Value.uint.inj
  | natural =>
    cases h with
    | uint256 n => exact natural_eq_ok_iff
  | bool =>
    cases h with
    | bool b => exact ok_eq_ok_iff fun _ _ => Value.bool.inj
  | string =>
    cases h with
    | string text => exact ok_eq_ok_iff fun _ _ => Value.string.inj
  | stringView =>
    cases h with
    | string text => exact ok_eq_ok_iff fun _ _ => Value.string.inj
  | address =>
    cases h with
    | address a => exact ok_eq_ok_iff fun _ _ => Value.address.inj
  | hash =>
    cases h with
    | fixedBytes hl => exact decodeBytes32_eq_ok_iff
  | uid =>
    cases h with
    | fixedBytes hl => exact uid_eq_ok_iff
  | bytes =>
    cases h with
    | bytes data => exact ok_eq_ok_iff fun _ _ => Value.bytes.inj

theorem encode_sound {s : Scalar} {v : Value} {x : s.Val} (h : s.encode x = .ok v) :
    HasType s.descriptor v ∧ s.descriptor.shape.InRange v.datum := by
  cases s with
  | uint width =>
    cases h
    refine ⟨.uint width _, ?_⟩
    change (BitVec.ofNat 256 (BitVec.toNat x)).toNat < 2 ^ width.bits
    rw [BitVec.toNat_ofNat, Nat.mod_eq_of_lt (UintWidth.toNat_lt x)]
    exact x.isLt
  | word =>
    cases h
    exact ⟨.uint256 x, x.isLt⟩
  | natural =>
    obtain ⟨word, rfl, -⟩ := encodeNatural_eq_ok_iff.1 h
    exact ⟨.uint256 word, word.isLt⟩
  | bool =>
    cases h
    exact ⟨.bool x, trivial⟩
  | string =>
    cases h
    exact ⟨.string x, trivial⟩
  | stringView =>
    cases h
    exact ⟨.string x, trivial⟩
  | address =>
    cases h
    exact ⟨.address x, trivial⟩
  | hash =>
    cases h
    exact ⟨.fixedBytes (Vector.length_toList), trivial⟩
  | uid =>
    cases h
    exact ⟨.fixedBytes (Vector.length_toList), trivial⟩
  | bytes =>
    cases h
    exact ⟨.bytes x, trivial⟩

end Scalar

end Attest
