import Attest.Proofs.Bytes
import Attest.Proofs.Text.Hex
import Attest.Uid

set_option autoImplicit false

namespace Attest.Uid

open Text

/-- The identifier that is a number in big-endian order. Of a larger number the last 32 bytes count. -/
def ofNumber (n : Nat) : Uid := ⟨⟨(bigEndian 32 n).toArray, by simp [bigEndian_length]⟩⟩

theorem eq_of_toList {u v : Uid} (h : u.bytes.toList = v.bytes.toList) : u = v := by
  obtain ⟨u⟩ := u
  obtain ⟨v⟩ := v
  rw [Uid.mk.injEq]
  exact Vector.toList_inj.1 h

theorem number_ofNumber (n : Nat) : (ofNumber n).number = n % 2 ^ 256 := by
  have h := ofBigEndian_bigEndian 32 n
  rw [Nat.one_shiftLeft] at h
  exact h

theorem ofNumber_number (u : Uid) : ofNumber u.number = u := by
  have h := bigEndian_ofBigEndian u.bytes.toList
  rw [Vector.length_toList] at h
  exact eq_of_toList h

theorem ofNumber_mod (n : Nat) : ofNumber (n % 2 ^ 256) = ofNumber n := by
  rw [← number_ofNumber, ofNumber_number]

theorem ofLastBytes_eq (data : Bytes) : ofLastBytes data = ofNumber (ofBigEndian data) :=
  eq_of_toList (Bytes.takeLast_toList 32 data)

/-- The padded reader makes the number of digits even by a zero in front, which changes nothing in the
    number that they denote. -/
theorem ofPadded_eq_ok_iff {text : String} {u : Uid} :
    ofPadded text = .ok u ↔ (∀ c ∈ dropMarker text.toList, IsHexDigit c) ∧
      u = ofNumber (hexNumber (dropMarker text.toList)) := by
  rw [ofPadded]
  generalize dropMarker text.toList = digits
  generalize he : (if (utf8 digits).length % 2 = 1 then '0' :: digits else digits) = even
  have hz : ((∀ c ∈ even, IsHexDigit c) ↔ ∀ c ∈ digits, IsHexDigit c) ∧
      hexNumber even = hexNumber digits := by
    subst he
    split
    · have h0 : IsHexDigit '0' := by decide
      exact ⟨by rw [List.forall_mem_cons, and_iff_right h0], rfl⟩
    · exact ⟨Iff.rfl, rfl⟩
  have hl : (∀ c ∈ digits, IsHexDigit c) → even.length % 2 = 0 := by
    intro h
    rw [utf8_of_digits h, List.length_map] at he
    subst he
    split
    · rw [List.length_cons]
      omega
    · omega
  constructor
  · intro h
    cases hr : readHex even with
    | error fault =>
      rw [hr] at h
      cases h
    | ok data =>
      rw [hr] at h
      cases h
      obtain ⟨hd, hp, rfl⟩ := readHex_eq_ok_iff.1 hr
      exact ⟨hz.1.1 hd, by rw [ofLastBytes_eq, ofBigEndian_pairBytes hd hp, hz.2]⟩
  · rintro ⟨hd, rfl⟩
    have hp := hl hd
    rw [readHex_eq_ok_iff.2 ⟨hz.1.2 hd, hp, rfl⟩, ← hz.2, ← ofBigEndian_pairBytes (hz.1.2 hd) hp,
      ← ofLastBytes_eq]
    rfl

theorem ofText_iff_readHex {text : String} {u : Uid} :
    ofText text = .ok u ↔ readHex (dropMarker text.toList) = .ok u.bytes.toList := by
  rw [← readHexExactly_eq_ok_iff, ofText]
  cases readHexExactly 32 (dropMarker text.toList) with
  | error fault => exact ⟨nofun, nofun⟩
  | ok bytes =>
    constructor
    · rintro ⟨⟩
      rfl
    · rintro ⟨⟩
      rfl

theorem ofText_iff_ofPadded {text : String} {u : Uid} :
    ofText text = .ok u ↔ ofPadded text = .ok u ∧ (dropMarker text.toList).length = 64 := by
  rw [ofText_iff_readHex, ofPadded_eq_ok_iff, readHex_eq_ok_iff]
  generalize dropMarker text.toList = digits
  constructor
  · rintro ⟨hd, he, hp⟩
    have hl := congrArg List.length hp
    rw [pairBytes_length, List.length_map, Vector.length_toList] at hl
    refine ⟨⟨hd, ?_⟩, by omega⟩
    rw [← ofBigEndian_pairBytes hd he, hp]
    exact (ofNumber_number u).symm
  · rintro ⟨⟨hd, rfl⟩, hl⟩
    have he : digits.length % 2 = 0 := by omega
    refine ⟨hd, he, ?_⟩
    have hb := bigEndian_ofBigEndian (pairBytes (digits.map hexDigitValue))
    rw [pairBytes_length, List.length_map, hl, ofBigEndian_pairBytes hd he] at hb
    exact hb.symm

theorem ofText_written (u : Uid) : ofText u.text = .ok u := by
  rw [ofText_iff_readHex, text, String.toList_ofList]
  exact readHex_hex u.bytes.toList

/-- The padded reader takes exactly the texts of digits behind at most one marker, and returns their
    number modulo `2 ^ 256`; the other reader takes those of them that have 64 digits, and returns the
    same. Both read every identifier that is written. -/
theorem readers_agree :
    (∀ (text : String) (u : Uid), ofPadded text = .ok u ↔
      (∀ c ∈ dropMarker text.toList, IsHexDigit c) ∧
        u = ofNumber (hexNumber (dropMarker text.toList) % 2 ^ 256)) ∧
    (∀ (text : String) (u : Uid), ofText text = .ok u ↔
      ofPadded text = .ok u ∧ (dropMarker text.toList).length = 64) ∧
    ∀ u : Uid, ofText u.text = .ok u ∧ ofPadded u.text = .ok u := by
  refine ⟨fun text u => ?_, fun text u => ofText_iff_ofPadded, fun u => ?_⟩
  · rw [ofNumber_mod]
    exact ofPadded_eq_ok_iff
  · exact ⟨ofText_written u, (ofText_iff_ofPadded.1 (ofText_written u)).1⟩

end Attest.Uid
