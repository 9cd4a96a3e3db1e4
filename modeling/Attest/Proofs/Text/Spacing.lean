import Attest.Proofs.Text.Blank

set_option autoImplicit false

namespace Attest.Text

/-- One space in place of each run of blanks. -/
def squeeze : List Char → List Char
  | [] => []
  | c :: text =>
    if isBlank c then
      if text.head?.any isBlank then squeeze text else ' ' :: squeeze text
    else c :: squeeze text

variable {c : Char} {x y text blanks : List Char}

theorem firstWord_cons_blank (hc : isBlank c = true) (text : List Char) :
    firstWord (c :: text) = ([], words text) := by
  simp [firstWord, hc, words]

theorem firstWord_cons_ink (hc : isBlank c = false) (text : List Char) :
    firstWord (c :: text) = (c :: (firstWord text).1, (firstWord text).2) := by
  simp [firstWord, hc]

theorem words_cons_ink (hc : isBlank c = false) (text : List Char) :
    words (c :: text) = (c :: (firstWord text).1) :: (firstWord text).2 := by
  rw [words, firstWord_cons_ink hc]
  rfl

theorem words_eq_of_firstWord (h : firstWord x = firstWord y) : words x = words y := by
  rw [words, words, h]

theorem words_eq_nil_iff : words text = [] ↔ ∀ c ∈ text, isBlank c = true := by
  induction text with
  | nil => exact ⟨fun _ => nofun, fun _ => rfl⟩
  | cons c text ih =>
    rw [List.forall_mem_cons]
    cases hc : isBlank c with
    | true => rw [words_cons_blank hc, ih, and_iff_right rfl]
    | false => simp [words_cons_ink hc]

theorem words_blanks_append (h : ∀ c ∈ blanks, isBlank c = true) (text : List Char) :
    words (blanks ++ text) = words text := by
  induction blanks with
  | nil => rfl
  | cons c blanks ih =>
    rw [List.forall_mem_cons] at h
    rw [List.cons_append, words_cons_blank h.1, ih h.2]

theorem words_append_blanks (h : ∀ c ∈ blanks, isBlank c = true) (text : List Char) :
    words (text ++ blanks) = words text := by
  cases blanks with
  | nil => rw [List.append_nil]
  | cons c blanks =>
    rw [List.forall_mem_cons] at h
    rw [words_append_blank h.1, words_eq_nil_iff.2 h.2, List.append_nil]

section Cutting

variable {word : List Char} {rest : List (List Char)}

theorem exists_of_firstWord_cons (h : firstWord text = (c :: word, rest)) :
    ∃ body, text = c :: body ∧ firstWord body = (word, rest) := by
  cases text with
  | nil => cases h
  | cons a text =>
    cases ha : isBlank a with
    | true =>
      rw [firstWord_cons_blank ha] at h
      cases h
    | false =>
      rw [firstWord_cons_ink ha] at h
      cases h
      exact ⟨text, rfl, rfl⟩

theorem exists_of_words_cons (h : words text = (c :: word) :: rest) :
    ∃ blanks body, text = blanks ++ c :: body ∧ (∀ b ∈ blanks, isBlank b = true) ∧
      firstWord body = (word, rest) := by
  induction text with
  | nil => cases h
  | cons a text ih =>
    cases ha : isBlank a with
    | true =>
      rw [words_cons_blank ha] at h
      obtain ⟨blanks, body, rfl, hb, hf⟩ := ih h
      exact ⟨a :: blanks, body, rfl, List.forall_mem_cons.2 ⟨ha, hb⟩, hf⟩
    | false =>
      rw [words_cons_ink ha] at h
      cases h
      exact ⟨[], text, rfl, nofun, rfl⟩

/-- At a character that is no blank, a text of the same words can be cut likewise. Behind a blank all
    that is known of the other text is its words, and within a word it is the same word. -/
theorem exists_cut (hc : isBlank c = false) (x y : List Char) :
    (∀ text, firstWord text = firstWord (x ++ c :: y) → ∃ left right, text = left ++ c :: right ∧
        firstWord left = firstWord x ∧ words right = words y) ∧
      ∀ text, words text = words (x ++ c :: y) → ∃ left right, text = left ++ c :: right ∧
        words left = words x ∧ words right = words y := by
  induction x with
  | nil =>
    refine ⟨fun text h => ?_, fun text h => ?_⟩
    · rw [List.nil_append, firstWord_cons_ink hc] at h
      obtain ⟨right, rfl, hr⟩ := exists_of_firstWord_cons h
      exact ⟨[], right, rfl, rfl, words_eq_of_firstWord hr⟩
    · rw [List.nil_append, words_cons_ink hc] at h
      obtain ⟨left, right, rfl, hl, hr⟩ := exists_of_words_cons h
      exact ⟨left, right, rfl, words_eq_nil_iff.2 hl, words_eq_of_firstWord hr⟩
  | cons a x ih =>
    obtain ⟨ihf, ihw⟩ := ih
    cases ha : isBlank a with
    | true =>
      rw [List.cons_append, firstWord_cons_blank ha, words_cons_blank ha, words_cons_blank ha,
        firstWord_cons_blank ha]
      refine ⟨fun text h => ?_, ihw⟩
      cases text with
      | nil =>
        obtain ⟨left, right, hn, -⟩ := ihw [] (congrArg Prod.snd h)
        simp at hn
      | cons b text =>
        cases hb : isBlank b with
        | true =>
          rw [firstWord_cons_blank hb] at h
          obtain ⟨left, right, rfl, hl, hr⟩ := ihw text (congrArg Prod.snd h)
          exact ⟨b :: left, right, rfl, by rw [firstWord_cons_blank hb, hl], hr⟩
        | false =>
          rw [firstWord_cons_ink hb] at h
          cases h
    | false =>
      rw [List.cons_append, firstWord_cons_ink ha, words_cons_ink ha]
      refine ⟨fun text h => ?_, fun text h => ?_⟩
      · obtain ⟨body, rfl, hb⟩ := exists_of_firstWord_cons h
        obtain ⟨left, right, rfl, hl, hr⟩ := ihf body hb
        exact ⟨a :: left, right, rfl, by rw [firstWord_cons_ink ha, firstWord_cons_ink ha, hl], hr⟩
      · obtain ⟨blanks, body, rfl, hs, hb⟩ := exists_of_words_cons h
        obtain ⟨left, right, rfl, hl, hr⟩ := ihf body hb
        refine ⟨blanks ++ a :: left, right, by simp, ?_, hr⟩
        rw [words_blanks_append hs, words_cons_ink ha, words_cons_ink ha, hl]

theorem words_cut (hc : isBlank c = false) (h : words text = words (x ++ c :: y)) :
    ∃ left right, text = left ++ c :: right ∧ words left = words x ∧ words right = words y :=
  (exists_cut hc x y).2 text h

end Cutting

theorem ink_eq_of_words (h : words x = words y) : ink x = ink y := by
  rw [← words_flatten, h, words_flatten]

theorem words_trimStart (text : List Char) : words (trimStart text) = words text := by
  have hb : ∀ c ∈ text.takeWhile isBlank, isBlank c = true := fun _ => List.mem_takeWhile_imp
  have hs := words_blanks_append hb (trimStart text)
  rw [trimStart, List.takeWhile_append_dropWhile] at hs
  exact hs.symm

theorem exists_trimEnd_append (text : List Char) :
    ∃ blanks, (∀ c ∈ blanks, isBlank c = true) ∧ trimEnd text ++ blanks = text := by
  refine ⟨(text.reverse.takeWhile isBlank).reverse, fun c hc => ?_, ?_⟩
  · exact List.mem_takeWhile_imp (List.mem_reverse.1 hc)
  · rw [trimEnd, trimStart, ← List.reverse_append, List.takeWhile_append_dropWhile,
      List.reverse_reverse]

theorem mem_of_mem_trim (h : c ∈ trim text) : c ∈ text := by
  obtain ⟨blanks, -, ht⟩ := exists_trimEnd_append (trimStart text)
  have hs : c ∈ trimStart text := ht ▸ List.mem_append_left blanks h
  exact (List.dropWhile_sublist isBlank).subset hs

theorem words_trim (text : List Char) : words (trim text) = words text := by
  obtain ⟨blanks, hb, ht⟩ := exists_trimEnd_append (trimStart text)
  rw [← words_trimStart text, trim, ← words_append_blanks hb, ht]

theorem not_isBlank_head_trim (text : List Char) :
    ∀ c ∈ (trim text).head?, isBlank c = false := by
  intro c hc
  rw [trim, Option.mem_def] at hc
  obtain ⟨blanks, -, ht⟩ := exists_trimEnd_append (trimStart text)
  have hs : (trimStart text).head? = some c := by
    rw [← ht, List.head?_append, hc, Option.some_or]
  have hn := List.head?_dropWhile_not isBlank text
  rw [trimStart] at hs
  rw [hs] at hn
  exact hn

theorem head?_trim (text : List Char) :
    (trim text).head? = (words text).head?.bind List.head? := by
  have hb := not_isBlank_head_trim text
  rw [← words_trim]
  cases ht : trim text with
  | nil => rfl
  | cons c rest =>
    rw [ht] at hb
    rw [words_cons_ink (hb c rfl)]
    rfl

theorem firstWord_squeeze (text : List Char) : firstWord (squeeze text) = firstWord text := by
  induction text with
  | nil => rfl
  | cons c text ih =>
    rw [squeeze]
    cases hc : isBlank c with
    | false => rw [if_neg Bool.false_ne_true, firstWord_cons_ink hc, firstWord_cons_ink hc, ih]
    | true =>
      rw [if_pos rfl, firstWord_cons_blank hc]
      split
      · rename_i hb
        cases text with
        | nil => cases hb
        | cons b text =>
          rw [ih, firstWord_cons_blank hb, words_cons_blank hb]
      · rw [firstWord_cons_blank (c := ' ') rfl, words_eq_of_firstWord ih]

theorem words_squeeze (text : List Char) : words (squeeze text) = words text :=
  words_eq_of_firstWord (firstWord_squeeze text)

end Attest.Text
