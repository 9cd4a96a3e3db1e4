import Attest.Address
import Attest.Proofs.Bytes
import Attest.Proofs.Text.Hex

set_option autoImplicit false

namespace Attest.Address

open Text

theorem eq_of_toList {a b : Address} (h : a.bytes.toList = b.bytes.toList) : a = b := by
  obtain ⟨a⟩ := a
  obtain ⟨b⟩ := b
  rw [Address.mk.injEq]
  exact Vector.toList_inj.1 h

theorem text_injective : Function.Injective Address.text := by
  intro a b h
  exact eq_of_toList (hexMarked_injective (String.ofList_injective h))

theorem ofText?_text (a : Address) : ofText? a.text = some a := by
  have hd := isHexDigit_of_mem_hex a.bytes.toList
  have hl : (hex a.bytes.toList).length = 40 := by
    rw [hex_length, Vector.length_toList]
  have hb : (pairBytes ((hex a.bytes.toList).map hexDigitValue)).takeFirst 20 = a.bytes := by
    rw [pairBytes_hex]
    exact Vector.toList_inj.1 (Bytes.takeFirst_toList a.bytes.length_toList)
  rw [ofText?, text, String.toList_ofList, hexMarked, dropMarker]
  simp only [looseDigits?_digits hd, hl, ofFirstBytes, hb, if_true, Option.bind_eq_bind,
    Option.bind_some]

end Attest.Address
