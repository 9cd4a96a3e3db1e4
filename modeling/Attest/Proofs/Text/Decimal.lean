import Mathlib.Data.List.Basic
import Mathlib.Data.List.Induction
import Attest.Text.Decimal

set_option autoImplicit false

namespace Attest.Text

theorem digit?_digitChar {d : Nat} (h : d < 10) : digit? d.digitChar = some d := by
  simp [digit?, h, Nat.toNat_digitChar_sub_48_of_lt_ten h]

theorem isDigit_of_mem_decimal {n : Nat} {c : Char} (h : c ∈ decimal n) : c.isDigit = true :=
  Nat.isDigit_of_mem_toDigits (by decide) (by decide) h

theorem decimal_ne_nil (n : Nat) : decimal n ≠ [] := Nat.toDigits_ne_nil

theorem ofDigitChars_decimal (n : Nat) : Nat.ofDigitChars 10 (decimal n) 0 = n :=
  Nat.ofDigitChars_ten_toDigits

theorem decimal_injective : Function.Injective decimal := by
  intro m n h
  rw [← ofDigitChars_decimal m, h, ofDigitChars_decimal]

theorem eq_zero_of_head?_decimal {n : Nat} (h : (decimal n).head? = some '0') : n = 0 := by
  induction n using Nat.strongRecOn with
  | ind n ih =>
    rw [decimal, Nat.toDigits_eq_if (by decide)] at h
    split at h
    · rename_i hn
      have hd := digit?_digitChar hn
      rw [Option.some.inj h] at hd
      exact (Option.some.inj hd).symm
    · obtain ⟨c, text, hd⟩ := List.exists_cons_of_ne_nil (decimal_ne_nil (n / 10))
      rw [show Nat.toDigits 10 (n / 10) = c :: text from hd] at h
      have hq : n / 10 = 0 := ih (n / 10) (by omega) (by rw [hd]; exact h)
      omega

/-- Whether a text is a number in digits, with or without leading zeros. -/
def Digits (text : List Char) (n : Nat) : Prop :=
  text ≠ [] ∧ (∀ c ∈ text, c.isDigit = true) ∧ Nat.ofDigitChars 10 text 0 = n

/-- Whether a text is a number in digits behind at most one plus sign. -/
def Signed (text : List Char) (n : Nat) : Prop :=
  Digits text n ∨ ∃ digits, text = '+' :: digits ∧ Digits digits n

theorem digits_decimal (n : Nat) : Digits (decimal n) n :=
  ⟨decimal_ne_nil n, fun _ => isDigit_of_mem_decimal, ofDigitChars_decimal n⟩

theorem digitChar_of_isDigit {c : Char} (h : c.isDigit = true) :
    c.toNat - 48 < 10 ∧ (c.toNat - 48).digitChar = c := by
  have hc := toNat_of_isDigit h
  have hd : c.toNat - 48 < 10 := by omega
  refine ⟨hd, Char.toNat_inj.1 ?_⟩
  rw [Nat.toNat_digitChar_of_lt_ten hd]
  omega

theorem decimal_of_lt {d : Nat} (h : d < 10) : decimal d = [d.digitChar] := by
  rw [decimal, Nat.toDigits_eq_if (by decide), if_pos h]

theorem decimal_mul_ten_add {n d : Nat} (hn : n ≠ 0) (hd : d < 10) :
    decimal (n * 10 + d) = decimal n ++ [d.digitChar] := by
  have hq : (n * 10 + d) / 10 = n := by omega
  have hr : (n * 10 + d) % 10 = d := by omega
  rw [decimal, Nat.toDigits_eq_if (by decide), if_neg (by omega), hq, hr]
  rfl

theorem Digits.eq_decimal {text : List Char} {n : Nat} (h : Digits text n)
    (hz : text.head? ≠ some '0') : text = decimal n := by
  induction text using List.reverseRecOn generalizing n with
  | nil => exact absurd rfl h.1
  | append_singleton front c ih =>
    obtain ⟨-, hd, rfl⟩ := h
    rw [List.forall_mem_append, List.forall_mem_singleton] at hd
    obtain ⟨hlt, hc⟩ := digitChar_of_isDigit hd.2
    rw [Nat.ofDigitChars_append, Nat.ofDigitChars_cons, Nat.ofDigitChars_nil, Nat.mul_comm]
    by_cases hf : front = []
    · subst hf
      rw [Nat.ofDigitChars_nil, Nat.zero_mul, Nat.zero_add]
      exact (hc ▸ decimal_of_lt hlt).symm
    · rw [List.head?_append_of_ne_nil _ hf] at hz
      have hi := ih ⟨hf, hd.1, rfl⟩ hz
      have hn : Nat.ofDigitChars 10 front 0 ≠ 0 := by
        intro h0
        rw [hi, h0] at hz
        exact hz rfl
      have hs := decimal_mul_ten_add hn hlt
      rw [hc, ← hi] at hs
      exact hs.symm

theorem digit?_eq_some_iff {c : Char} {d : Nat} :
    digit? c = some d ↔ c.isDigit = true ∧ c.toNat - 48 = d := by
  unfold digit?
  split <;> simp_all

theorem le_ofDigitChars (text : List Char) (n : Nat) : n ≤ Nat.ofDigitChars 10 text n := by
  rw [Nat.ofDigitChars_eq_ofDigitChars_zero]
  exact Nat.le_add_right_of_le (Nat.le_mul_of_pos_left n (Nat.pow_pos (by decide)))

theorem readDigits_eq_ok_iff {soFar n : Nat} {text : List Char} (hs : soFar ≤ sizeMax) :
    readDigits soFar text = .ok n ↔
      (∀ c ∈ text, c.isDigit = true) ∧ Nat.ofDigitChars 10 text soFar = n ∧ n ≤ sizeMax := by
  induction text generalizing soFar with
  | nil =>
    rw [readDigits, Nat.ofDigitChars_nil, Except.ok.injEq]
    exact ⟨fun h => ⟨nofun, h, h ▸ hs⟩, fun h => h.2.1⟩
  | cons c text ih =>
    rw [readDigits, List.forall_mem_cons, Nat.ofDigitChars_cons, Nat.mul_comm 10]
    cases hd : digit? c with
    | none =>
      have hc : c.isDigit = false := by
        cases hc : c.isDigit with
        | false => rfl
        | true =>
          rw [digit?_eq_some_iff.2 ⟨hc, rfl⟩] at hd
          cases hd
      simp [hc]
    | some d =>
      obtain ⟨hc, hv⟩ := digit?_eq_some_iff.1 hd
      rw [show c.toNat - '0'.toNat = d from hv, and_iff_right hc]
      by_cases hle : soFar * 10 + d ≤ sizeMax
      · simp only [hle, if_true]
        exact ih hle
      · simp only [hle, if_false]
        refine ⟨nofun, fun hx => absurd ?_ hle⟩
        obtain ⟨-, hn, hm⟩ := hx
        exact Nat.le_trans (le_ofDigitChars text _) (hn ▸ hm)

/-- What is read as a size: digits behind at most one plus sign, up to the largest size. -/
theorem readSize_eq_ok_iff {text : List Char} {n : Nat} :
    readSize text = .ok n ↔ Signed text n ∧ n ≤ sizeMax := by
  have hd : ∀ digits, digits ≠ [] → (readDigits 0 digits = .ok n ↔ Digits digits n ∧ n ≤ sizeMax) := by
    intro digits hn
    rw [readDigits_eq_ok_iff (Nat.zero_le _), Digits, and_iff_right hn, and_assoc]
  unfold readSize
  split
  · simp [Signed, Digits]
  · rename_i digits
    have hp : ¬ Digits ('+' :: digits) n := fun h => by cases h.2.1 '+' (List.mem_cons_self ..)
    have hs : Signed ('+' :: digits) n ↔ Digits digits n := by
      simp [Signed, hp]
    rw [hs]
    split
    · rename_i hn
      simp [hn, Digits]
    · rename_i hn
      exact hd digits hn
  · rename_i hn hp
    have hs : Signed text n ↔ Digits text n :=
      ⟨fun h => h.resolve_right fun ⟨digits, ht, _⟩ => hp digits ht, .inl⟩
    rw [hs, hd text hn]

end Attest.Text
