import Mathlib.Data.List.TakeWhile
import Attest.Text.Blank

set_option autoImplicit false

namespace Attest.Text

/-- The characters of a text that are no blanks. -/
def ink (text : List Char) : List Char := text.filter fun c => !isBlank c

@[simp]
theorem ink_nil : ink [] = [] := rfl

theorem ink_cons_of_blank {c : Char} (h : isBlank c = true) (text : List Char) :
    ink (c :: text) = ink text := by
  simp [ink, h]

theorem ink_cons_of_ink {c : Char} (h : isBlank c = false) (text : List Char) :
    ink (c :: text) = c :: ink text := by
  simp [ink, h]

def Unbroken (text : List Char) : Prop := ∀ c ∈ text, isBlank c = false

instance (text : List Char) : Decidable (Unbroken text) := List.decidableBAll _ text

theorem Unbroken.append {x y : List Char} (hx : Unbroken x) (hy : Unbroken y) :
    Unbroken (x ++ y) := by
  intro c hc
  rcases List.mem_append.1 hc with hc | hc
  · exact hx c hc
  · exact hy c hc

theorem consWord_append (word : List Char) (x y : List (List Char)) :
    consWord word (x ++ y) = consWord word x ++ y := by
  unfold consWord
  split <;> rfl

theorem consWord_flatten (word : List Char) (rest : List (List Char)) :
    (consWord word rest).flatten = word ++ rest.flatten := by
  unfold consWord
  split
  · simp [*]
  · rfl

theorem firstWord_append_blank {c : Char} (hc : isBlank c = true) (x y : List Char) :
    firstWord (x ++ c :: y) = ((firstWord x).1, (firstWord x).2 ++ words y) := by
  induction x with
  | nil => simp [firstWord, words, hc]
  | cons a x ih =>
    rw [List.cons_append, firstWord, firstWord, ih]
    cases isBlank a <;> simp [consWord_append]

theorem words_append_blank {c : Char} (hc : isBlank c = true) (x y : List Char) :
    words (x ++ c :: y) = words x ++ words y := by
  rw [words, firstWord_append_blank hc]
  exact consWord_append _ _ _

theorem words_cons_blank {c : Char} (hc : isBlank c = true) (text : List Char) :
    words (c :: text) = words text := words_append_blank hc [] text

theorem firstWord_of_unbroken {text : List Char} (h : Unbroken text) :
    firstWord text = (text, []) := by
  induction text with
  | nil => rfl
  | cons c text ih =>
    have hc := h c (by simp)
    have ht := ih fun x hx => h x (by simp [hx])
    simp [firstWord, hc, ht]

theorem words_of_unbroken {text : List Char} (h : Unbroken text) (hn : text ≠ []) :
    words text = [text] := by
  simp [words, firstWord_of_unbroken h, consWord, hn]

theorem firstWord_flatten (text : List Char) :
    (firstWord text).1 ++ (firstWord text).2.flatten = ink text := by
  induction text with
  | nil => rfl
  | cons c text ih =>
    rw [firstWord]
    cases hc : isBlank c
    · rw [ink_cons_of_ink hc, ← ih]
      rfl
    · rw [ink_cons_of_blank hc, ← ih]
      exact consWord_flatten _ _

theorem words_flatten (text : List Char) : (words text).flatten = ink text := by
  rw [words, ← firstWord_flatten]
  exact consWord_flatten _ _

theorem unbroken_ink (text : List Char) : Unbroken (ink text) := by
  intro c hc
  simpa using (List.mem_filter.1 hc).2

theorem unbroken_of_mem_words {text word : List Char} (h : word ∈ words text) :
    Unbroken word := by
  intro c hc
  have hf : c ∈ (words text).flatten := List.mem_flatten_of_mem h hc
  rw [words_flatten] at hf
  exact unbroken_ink text c hf

theorem ne_nil_of_mem_consWord {first word : List Char} {rest : List (List Char)}
    (hr : ∀ w ∈ rest, w ≠ []) (h : word ∈ consWord first rest) : word ≠ [] := by
  unfold consWord at h
  split at h
  · exact hr word h
  · rcases List.mem_cons.1 h with rfl | h
    · assumption
    · exact hr word h

theorem ne_nil_of_mem_firstWord (text : List Char) : ∀ w ∈ (firstWord text).2, w ≠ [] := by
  induction text with
  | nil => simp [firstWord]
  | cons c text ih =>
    rw [firstWord]
    cases isBlank c
    · exact ih
    · exact fun w hw => ne_nil_of_mem_consWord ih hw

theorem ne_nil_of_mem_words {text word : List Char} (h : word ∈ words text) : word ≠ [] :=
  ne_nil_of_mem_consWord (ne_nil_of_mem_firstWord text) h

section Trimming

variable {text : List Char}

theorem ink_trimStart (text : List Char) : ink (trimStart text) = ink text := by
  induction text with
  | nil => rfl
  | cons c text ih =>
    rw [trimStart, List.dropWhile_cons]
    split
    · rename_i hc
      rw [ink_cons_of_blank hc, ← ih, trimStart]
    · rfl

theorem ink_reverse (text : List Char) : ink text.reverse = (ink text).reverse :=
  List.filter_reverse

theorem ink_trim (text : List Char) : ink (trim text) = ink text := by
  rw [trim, trimEnd, ink_reverse, ink_trimStart, ink_reverse, List.reverse_reverse, ink_trimStart]

theorem trim_cons_blank {c : Char} (hc : isBlank c = true) (text : List Char) :
    trim (c :: text) = trim text := by
  simp [trim, trimStart, hc]

theorem trimStart_eq_self (h : ∀ c ∈ text.head?, isBlank c = false) : trimStart text = text := by
  cases text with
  | nil => rfl
  | cons c text =>
    have hc := h c rfl
    simp [trimStart, hc]

theorem trim_eq_self (hf : ∀ c ∈ text.head?, isBlank c = false)
    (hl : ∀ c ∈ text.getLast?, isBlank c = false) : trim text = text := by
  have hr : ∀ c ∈ text.reverse.head?, isBlank c = false := by
    rwa [List.head?_reverse]
  rw [trim, trimStart_eq_self hf, trimEnd, trimStart_eq_self hr, List.reverse_reverse]

theorem trim_eq_nil_iff : trim text = [] ↔ ink text = [] := by
  constructor
  · intro h
    rw [← ink_trim, h, ink_nil]
  · intro h
    have hb : trimStart text = [] := by
      rw [trimStart, List.dropWhile_eq_nil_iff]
      simpa [ink] using h
    rw [trim, hb]
    rfl

end Trimming

end Attest.Text
