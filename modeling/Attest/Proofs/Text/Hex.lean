import Mathlib.Data.List.Basic
import Attest.Text.Hex

set_option autoImplicit false

namespace Attest.Text

/-- The digits, each at the place of its value. -/
def hexDigits : List Char := "0123456789abcdef".toList

def IsHexDigit (c : Char) : Prop := c.toLower ∈ hexDigits

instance (c : Char) : Decidable (IsHexDigit c) := inferInstanceAs (Decidable (c.toLower ∈ hexDigits))

def hexDigitValue (c : Char) : Nat := hexDigits.idxOf c.toLower

def hexNumber (digits : List Char) : Nat :=
  digits.foldl (fun n c => n * 16 + hexDigitValue c) 0

section Digits

variable {c : Char}

set_option maxRecDepth 10000 in
theorem hexValue?_of_lt : ∀ n : Nat, n < 128 → hexValue? n =
    if IsHexDigit (Char.ofNat n) then some (hexDigitValue (Char.ofNat n)) else none := by
  decide

theorem hexValue?_of_le {n : Nat} (h : 128 ≤ n) : hexValue? n = none := by
  have hd : ∀ a b, b < 128 → ¬ ((decide (a ≤ n) && decide (n ≤ b)) = true) := by
    intro a b hb
    simp only [Bool.and_eq_true, decide_eq_true_eq]
    omega
  rw [hexValue?, if_neg (hd _ _ (by decide)), if_neg (hd _ _ (by decide)),
    if_neg (hd _ _ (by decide))]

theorem IsHexDigit.toNat_lt (h : IsHexDigit c) : c.toNat < 128 := by
  have hd : hexDigits.all (·.toNat < 128) = true := by decide
  have hl := of_decide_eq_true (List.all_eq_true.1 hd _ h)
  unfold Char.toLower at hl
  split at hl
  · rename_i hc
    have hu : c.toNat ≤ 90 := UInt32.le_iff_toNat_le.1 hc.2
    omega
  · exact hl

/-- The reader knows the digits by their codes. -/
theorem hexValue?_toNat (c : Char) :
    hexValue? c.toNat = if IsHexDigit c then some (hexDigitValue c) else none := by
  by_cases hc : c.toNat < 128
  · have h := hexValue?_of_lt c.toNat hc
    rwa [Char.ofNat_toNat] at h
  · rw [hexValue?_of_le (by omega), if_neg fun h => hc h.toNat_lt]

theorem hexDigitValue_lt (h : IsHexDigit c) : hexDigitValue c < 16 :=
  List.idxOf_lt_length_of_mem h

theorem isHexDigit_hexDigit : ∀ n : Nat, n < 16 → IsHexDigit (hexDigit n) := by decide

theorem hexDigitValue_hexDigit : ∀ n : Nat, n < 16 → hexDigitValue (hexDigit n) = n := by decide

theorem utf8EncodeChar_of_lt (h : c.toNat < 128) :
    String.utf8EncodeChar c = [UInt8.ofNat c.toNat] := if_pos (Nat.lt_succ_iff.1 h)

/-- What is not ASCII begins with a byte that is no digit either. -/
theorem exists_utf8EncodeChar (h : 128 ≤ c.toNat) :
    ∃ b rest, String.utf8EncodeChar c = b :: rest ∧ 128 ≤ b.toNat := by
  have hc : ¬ c.val.toNat ≤ 0x7F := Nat.not_le.2 h
  simp only [String.utf8EncodeChar, if_neg hc]
  split
  · exact ⟨_, _, rfl, by rw [UInt8.toNat_ofNat']; omega⟩
  split
  · exact ⟨_, _, rfl, by rw [UInt8.toNat_ofNat']; omega⟩
  · exact ⟨_, _, rfl, by rw [UInt8.toNat_ofNat']; omega⟩

theorem isHexDigit_of_utf8EncodeChar
    (h : ∀ b ∈ String.utf8EncodeChar c, (hexValue? b.toNat).isSome) : IsHexDigit c := by
  by_contra hn
  by_cases hc : c.toNat < 128
  · rw [utf8EncodeChar_of_lt hc, List.forall_mem_singleton, UInt8.toNat_ofNat',
      Nat.mod_eq_of_lt (by omega), hexValue?_toNat, if_neg hn] at h
    cases h
  · obtain ⟨b, rest, he, hb⟩ := exists_utf8EncodeChar (Nat.not_lt.1 hc)
    rw [he, List.forall_mem_cons, hexValue?_of_le hb] at h
    cases h.1

end Digits

section Reading

variable {text : List Char}

theorem utf8_of_digits (h : ∀ c ∈ text, IsHexDigit c) :
    utf8 text = text.map fun c => UInt8.ofNat c.toNat := by
  induction text with
  | nil => rfl
  | cons c text ih =>
    rw [List.forall_mem_cons] at h
    rw [utf8, List.flatMap_cons, utf8EncodeChar_of_lt h.1.toNat_lt, ← utf8, ih h.2]
    rfl

theorem readNibble_digit {c : Char} (h : IsHexDigit c) (position : Nat) :
    readNibble (UInt8.ofNat c.toNat) position = .ok (hexDigitValue c) := by
  have hc := h.toNat_lt
  rw [readNibble, UInt8.toNat_ofNat', Nat.mod_eq_of_lt (by omega), hexValue?_toNat, if_pos h]

theorem readPairs_digits (text : List Char) (h : ∀ c ∈ text, IsHexDigit c)
    (he : text.length % 2 = 0) (position : Nat) :
    readPairs position (text.map fun c => UInt8.ofNat c.toNat) =
      .ok (pairBytes (text.map hexDigitValue)) := by
  match text with
  | [] => rfl
  | [_] => cases he
  | high :: low :: rest =>
    rw [List.forall_mem_cons, List.forall_mem_cons] at h
    obtain ⟨hh, hl, hr⟩ := h
    rw [List.length_cons, List.length_cons] at he
    rw [List.map_cons, List.map_cons, readPairs, readNibble_digit hh, readNibble_digit hl,
      readPairs_digits rest hr (by omega)]
    rfl

theorem isSome_of_readNibble {b : UInt8} {position n : Nat} (h : readNibble b position = .ok n) :
    (hexValue? b.toNat).isSome := by
  rw [readNibble] at h
  split at h
  · rename_i hn
    rw [hn]
    rfl
  · cases h

theorem isSome_of_readPairs {data out : Bytes} {position : Nat}
    (h : readPairs position data = .ok out) :
    data.length % 2 = 0 ∧ ∀ b ∈ data, (hexValue? b.toNat).isSome := by
  match data with
  | [] => exact ⟨rfl, nofun⟩
  | [_] => cases h
  | high :: low :: rest =>
    rw [readPairs] at h
    cases hh : readNibble high position with
    | error fault =>
      rw [hh] at h
      cases h
    | ok m =>
      cases hl : readNibble low (position + 1) with
      | error fault =>
        rw [hh, hl] at h
        cases h
      | ok n =>
        cases hr : readPairs (position + 2) rest with
        | error fault =>
          rw [hh, hl, hr] at h
          cases h
        | ok data =>
          obtain ⟨he, hs⟩ := isSome_of_readPairs hr
          refine ⟨?_, ?_⟩
          · rw [List.length_cons, List.length_cons]
            omega
          · rw [List.forall_mem_cons, List.forall_mem_cons]
            exact ⟨isSome_of_readNibble hh, isSome_of_readNibble hl, hs⟩

/-- Digits in even number are read as the bytes that they write two by two, and nothing else is. -/
theorem readHex_eq_ok_iff {data : Bytes} :
    readHex text = .ok data ↔
      (∀ c ∈ text, IsHexDigit c) ∧ text.length % 2 = 0 ∧
        pairBytes (text.map hexDigitValue) = data := by
  have hok : (∀ c ∈ text, IsHexDigit c) → text.length % 2 = 0 →
      readHex text = .ok (pairBytes (text.map hexDigitValue)) := by
    intro hd he
    rw [readHex, utf8_of_digits hd, List.length_map, if_neg (by omega), readPairs_digits text hd he]
  constructor
  · intro h
    have hr := h
    rw [readHex] at hr
    split at hr
    · cases hr
    · obtain ⟨he, hs⟩ := isSome_of_readPairs hr
      have hd : ∀ c ∈ text, IsHexDigit c := fun c hc =>
        isHexDigit_of_utf8EncodeChar fun b hb => hs b (List.mem_flatMap.2 ⟨c, hc, hb⟩)
      rw [utf8_of_digits hd, List.length_map] at he
      rw [hok hd he] at h
      exact ⟨hd, he, Except.ok.inj h⟩
  · rintro ⟨hd, he, rfl⟩
    exact hok hd he

theorem pairBytes_length (digits : List Nat) : (pairBytes digits).length = digits.length / 2 := by
  match digits with
  | [] => rfl
  | [_] => simp [pairBytes]
  | _ :: _ :: digits =>
    rw [pairBytes, List.length_cons, pairBytes_length digits, List.length_cons, List.length_cons]
    omega

theorem length_of_readHex {data : Bytes} (h : readHex text = .ok data) :
    (utf8 text).length = 2 * data.length := by
  obtain ⟨hd, he, rfl⟩ := readHex_eq_ok_iff.1 h
  rw [utf8_of_digits hd, List.length_map, pairBytes_length, List.length_map]
  omega

theorem isWhitespace_of_isHexDigit {c : Char} (h : IsHexDigit c) : c.isWhitespace = false := by
  have hd : ∀ n : Nat, n < 128 → IsHexDigit (Char.ofNat n) →
      (Char.ofNat n).isWhitespace = false := by
    set_option maxRecDepth 10000 in decide
  have hc := hd c.toNat h.toNat_lt
  rw [Char.ofNat_toNat] at hc
  exact hc h

theorem looseDigits?_digits (h : ∀ c ∈ text, IsHexDigit c) :
    looseDigits? text = some (text.map hexDigitValue) := by
  induction text with
  | nil => rfl
  | cons c text ih =>
    rw [List.forall_mem_cons] at h
    simp only [looseDigits?, isWhitespace_of_isHexDigit h.1, hexValue?_toNat, h.1, ih h.2,
      Bool.false_eq_true, if_false, if_true, Option.bind_eq_bind, Option.bind_some, List.map_cons]
    rfl

theorem readHexExactly_eq_ok_iff {n : Nat} {v : Vector UInt8 n} :
    readHexExactly n text = .ok v ↔ readHex text = .ok v.toList := by
  constructor
  · intro h
    rw [readHexExactly] at h
    dsimp only at h
    split at h
    · cases h
    split at h
    · cases h
    rename_i ho hn
    rw [readHex, if_neg ho]
    cases hr : readPairs 0 (utf8 text) with
    | error fault =>
      rw [hr] at h
      cases h
    | ok data =>
      rw [hr] at h
      simp only [bind, Except.bind] at h
      split at h
      · rename_i hv
        cases h
        rw [Bytes.toList_of_exactly? hv]
      · cases h
  · intro h
    have hl := length_of_readHex h
    rw [Vector.length_toList] at hl
    rw [readHex, if_neg (by omega)] at h
    rw [readHexExactly, if_neg (by omega), if_neg (by omega), h]
    simp only [bind, Except.bind, Bytes.exactly?_toList]
    rfl

end Reading

section Numbers

theorem foldl_pairBytes (text : List Char) (h : ∀ c ∈ text, IsHexDigit c)
    (he : text.length % 2 = 0) (n : Nat) :
    (pairBytes (text.map hexDigitValue)).foldl (fun n b => n * 256 + b.toNat) n =
      text.foldl (fun n c => n * 16 + hexDigitValue c) n := by
  match text with
  | [] => rfl
  | [_] => cases he
  | high :: low :: rest =>
    rw [List.forall_mem_cons, List.forall_mem_cons] at h
    obtain ⟨hh, hl, hr⟩ := h
    rw [List.length_cons, List.length_cons] at he
    have hm := hexDigitValue_lt hh
    have hn := hexDigitValue_lt hl
    rw [List.map_cons, List.map_cons, pairBytes, List.foldl_cons, foldl_pairBytes rest hr (by omega),
      List.foldl_cons, List.foldl_cons, UInt8.toNat_ofNat', Nat.mod_eq_of_lt (by omega)]
    congr 1
    omega

theorem ofBigEndian_pairBytes {text : List Char} (h : ∀ c ∈ text, IsHexDigit c)
    (he : text.length % 2 = 0) :
    ofBigEndian (pairBytes (text.map hexDigitValue)) = hexNumber text :=
  foldl_pairBytes text h he 0

end Numbers

section Writing

theorem hex_cons (b : UInt8) (data : Bytes) :
    hex (b :: data) = hexDigit (b.toNat / 16) :: hexDigit (b.toNat % 16) :: hex data := rfl

theorem isHexDigit_of_mem_hex (data : Bytes) : ∀ c ∈ hex data, IsHexDigit c := by
  induction data with
  | nil => nofun
  | cons b data ih =>
    have hb := b.toNat_lt
    rw [hex_cons, List.forall_mem_cons, List.forall_mem_cons]
    exact ⟨isHexDigit_hexDigit _ (by omega), isHexDigit_hexDigit _ (by omega), ih⟩

theorem hex_length (data : Bytes) : (hex data).length = 2 * data.length := by
  induction data with
  | nil => rfl
  | cons b data ih =>
    rw [hex_cons, List.length_cons, List.length_cons, ih, List.length_cons]
    omega

theorem pairBytes_hex (data : Bytes) : pairBytes ((hex data).map hexDigitValue) = data := by
  induction data with
  | nil => rfl
  | cons b data ih =>
    have hb := b.toNat_lt
    have hn : 16 * (b.toNat / 16) + b.toNat % 16 = b.toNat := by omega
    rw [hex_cons, List.map_cons, List.map_cons, pairBytes, ih, hexDigitValue_hexDigit _ (by omega),
      hexDigitValue_hexDigit _ (by omega), hn, UInt8.ofNat_toNat]

theorem readHex_hex (data : Bytes) : readHex (hex data) = .ok data := by
  rw [readHex_eq_ok_iff, hex_length]
  exact ⟨isHexDigit_of_mem_hex data, Nat.mul_mod_right 2 _, pairBytes_hex data⟩

theorem hex_injective : Function.Injective hex := by
  intro x y h
  have hr := congrArg readHex h
  rw [readHex_hex, readHex_hex] at hr
  exact Except.ok.inj hr

theorem hexMarked_injective : Function.Injective hexMarked := by
  intro x y h
  exact hex_injective (List.cons.inj (List.cons.inj h).2).2

end Writing

end Attest.Text
