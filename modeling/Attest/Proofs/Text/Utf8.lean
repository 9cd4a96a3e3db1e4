import Mathlib.Logic.Function.Basic
import Attest.Text.Utf8

set_option autoImplicit false

namespace Attest.Text

theorem utf8_cons (c : Char) (text : List Char) :
    utf8 (c :: text) = String.utf8EncodeChar c ++ utf8 text := by
  simp [utf8]

/-- Four bytes hold a whole character, so the cut at four does not hide it. -/
theorem leading?_utf8_cons (c : Char) (text : List Char) :
    leading? (utf8 (c :: text)) = some c := by
  have hs : (String.utf8EncodeChar c).length ≤ 4 := by
    rw [String.length_utf8EncodeChar]
    exact c.utf8Size_le_four
  have ht : (utf8 (c :: text)).take 4 = String.utf8EncodeChar c ++
      (utf8 text).take (4 - (String.utf8EncodeChar c).length) := by
    rw [utf8_cons, List.take_append, List.take_of_length_le hs]
  rw [leading?, ht, List.toByteArray_append]
  exact ByteArray.utf8DecodeChar?_utf8EncodeChar_append

theorem drop_utf8_cons (c : Char) (text : List Char) :
    (utf8 (c :: text)).drop c.utf8Size = utf8 text := by
  rw [utf8_cons, ← String.length_utf8EncodeChar]
  exact List.drop_left

theorem lossy_utf8 (text : List Char) : lossy (utf8 text) = text := by
  induction text with
  | nil => rw [utf8, List.flatMap_nil, lossy]
  | cons c text ih =>
    have hc := leading?_utf8_cons c text
    have hd := drop_utf8_cons c text
    have hp := c.utf8Size_pos
    cases hb : utf8 (c :: text) with
    | nil =>
      have hl := congrArg List.length hb
      rw [utf8_cons, List.length_append, String.length_utf8EncodeChar, List.length_nil] at hl
      omega
    | cons b data =>
      rw [hb] at hc hd
      have hr : data.drop (c.utf8Size - 1) = utf8 text := by
        rw [← hd, ← Nat.sub_add_cancel hp, List.drop_succ_cons, Nat.add_sub_cancel]
      rw [lossy, hc]
      simp only [hr, ih]

theorem utf8_injective : Function.Injective utf8 :=
  Function.LeftInverse.injective lossy_utf8

end Attest.Text
