import Attest.Proofs.Schema.RoundTrip
import Attest.Proofs.Text.Spacing

set_option autoImplicit false

/-!
# Schema texts of the same words

All steps of reading a schema go alike on texts of the same words: the pieces between commas have the
same words, and so have what stands within and behind a group, and the last steps look at nothing but
words. So a schema may be spaced in any way; only what is told about a malformed one quotes the text
and counts its bytes.
-/
namespace Attest

open Text

namespace Result

variable {α β γ δ : Type}

/-- Whether two runs end alike: with results that correspond, or with the same failure, but for what
    is told about a malformed schema. -/
inductive Alike (r : α → β → Prop) : Result α → Result β → Prop
  | ok {a : α} {b : β} (h : r a b) : Alike r (.ok a) (.ok b)
  | failed (failure : Failure) : Alike r (.error failure) (.error failure)
  | malformed (first second : SchemaFault) :
    Alike r (.error (.malformedSchema first)) (.error (.malformedSchema second))

namespace Alike

theorem refl (x : Result α) : Alike Eq x x := by
  cases x with
  | ok a => exact .ok rfl
  | error failure => exact .failed failure

theorem bind {r : α → β → Prop} {q : γ → δ → Prop} {x : Result α} {y : Result β}
    {f : α → Result γ} {g : β → Result δ} (h : Alike r x y)
    (hf : ∀ a b, x = .ok a → r a b → Alike q (f a) (g b)) : Alike q (x >>= f) (y >>= g) := by
  cases h with
  | ok h => exact hf _ _ rfl h
  | failed failure => exact .failed failure
  | malformed first second => exact .malformed first second

theorem mapM {f : α → Result γ} {g : β → Result γ} {as : List α} {bs : List β}
    (h : List.Forall₂ (fun a b => Alike Eq (f a) (g b)) as bs) :
    Alike Eq (as.mapM f) (bs.mapM g) := by
  induction h with
  | nil => exact refl _
  | cons h _ ih =>
    rw [List.mapM_cons, List.mapM_cons]
    refine bind h fun c _ _ hc => bind ih fun cs _ _ hs => ?_
    rw [hc, hs]
    exact refl _

end Alike

end Result

open Result

namespace Schema

variable {x y : List Char}

theorem closed_of_words {s : Scanner} (hb : ∀ c, isBlank c = true → s.Ignores c)
    (h : words x = words y) (hc : s.Closed y) : s.Closed x := by
  rw [Scanner.Closed, ← Scanner.run_ink hb, ink_eq_of_words h, Scanner.run_ink hb]
  exact hc

section Pieces

variable {ps : List (List Char)}

theorem exists_pieces (hn : ps ≠ []) (hc : ∀ p ∈ ps, brackets.Closed p)
    (h : words x = words ([','].intercalate ps)) :
    ∃ qs, (qs ≠ [] ∧ (∀ q ∈ qs, brackets.Closed q) ∧ [','].intercalate qs = x) ∧
      List.Forall₂ (fun q p => words q = words p) qs ps := by
  induction ps generalizing x with
  | nil => exact absurd rfl hn
  | cons p ps ih =>
    rw [List.forall_mem_cons] at hc
    have hp : ∀ {q}, words q = words p → brackets.Closed q :=
      fun hq => closed_of_words (fun _ => brackets_ignores_blank) hq hc.1
    cases ps with
    | nil =>
      rw [List.intercalate_singleton] at h
      exact ⟨[x], ⟨List.cons_ne_nil x [], List.forall_mem_singleton.2 (hp h),
        List.intercalate_singleton⟩, .cons h .nil⟩
    | cons p' ps =>
      rw [List.intercalate_cons_cons, List.append_assoc, List.singleton_append] at h
      obtain ⟨left, right, rfl, hl, hr⟩ := words_cut rfl h
      obtain ⟨qs, ⟨hq, hs, rfl⟩, hw⟩ := ih (List.cons_ne_nil p' ps) hc.2 hr
      obtain ⟨q, qs, rfl⟩ := List.exists_cons_of_ne_nil hq
      refine ⟨left :: q :: qs, ⟨List.cons_ne_nil left _, List.forall_mem_cons.2 ⟨hp hl, hs⟩, ?_⟩,
        .cons hl hw⟩
      rw [List.intercalate_cons_cons, List.append_assoc, List.singleton_append]

theorem split_of_words (h : words x = words y) (hs : split y = .ok ps) :
    ∃ qs, split x = .ok qs ∧ List.Forall₂ (fun q p => words q = words p) qs ps := by
  obtain ⟨hn, hc, rfl⟩ := split_eq_ok_iff.1 hs
  obtain ⟨qs, hq, hw⟩ := exists_pieces hn hc h
  exact ⟨qs, split_eq_ok_iff.2 hq, hw⟩

end Pieces

section Forms

inductive SameForm : Form → Form → Prop
  | plain : SameForm .plain .plain
  | group {inner rest inner' rest' : List Char} (hi : words inner = words inner')
    (hr : words rest = words rest') : SameForm (.group inner rest) (.group inner' rest')

theorem form_cases (text : List Char) : (text.head? ≠ some '(' ∧ form text = .ok .plain) ∨
    text.head? = some '(' ∧ ((∃ inner rest, form text = .ok (.group inner rest)) ∨
      ∃ fault, form text = .error (.malformedSchema fault)) := by
  by_cases hp : text.head? = some '('
  · obtain ⟨body, rfl⟩ := List.head?_eq_some_iff.1 hp
    refine .inr ⟨hp, ?_⟩
    rw [form]
    cases closing? 0 body with
    | none => exact .inr ⟨_, rfl⟩
    | some found => exact .inl ⟨found.1, found.2, rfl⟩
  · exact .inl ⟨hp, form_of_head hp⟩

theorem form_of_words {inner rest : List Char} (h : words x = words y)
    (hf : form (trim y) = .ok (.group inner rest)) :
    ∃ inner' rest', form (trim x) = .ok (.group inner' rest') ∧ words inner' = words inner ∧
      words rest' = words rest := by
  obtain ⟨ht, hc⟩ := form_group_iff.1 hf
  have hx : words (trim x) = words ([] ++ '(' :: (inner ++ ')' :: rest)) := by
    rw [words_trim, h, ← words_trim y, ht]
    rfl
  obtain ⟨left, body, hl, hn, hb⟩ := words_cut rfl hx
  obtain ⟨inner', rest', rfl, hi, hr⟩ := words_cut rfl hb
  -- A trimmed text has no blanks in front.
  have he : left = [] := by
    cases left with
    | nil => rfl
    | cons c left =>
      have hk := words_eq_nil_iff.1 hn c (List.mem_cons_self ..)
      rw [not_isBlank_head_trim x c (by rw [hl]; rfl)] at hk
      cases hk
  subst he
  exact ⟨inner', rest', form_group_iff.2
    ⟨hl, closed_of_words (fun _ => parentheses_ignores_blank) hi hc⟩, hi, hr⟩

theorem form_alike (h : words x = words y) :
    Alike SameForm (form (trim x)) (form (trim y)) := by
  have hh : (trim x).head? = (trim y).head? := by rw [head?_trim, head?_trim, h]
  rcases form_cases (trim y) with ⟨hp, hy⟩ | ⟨hp, ⟨inner, rest, hy⟩ | ⟨fault, hy⟩⟩
  · rw [hy, form_of_head (hh ▸ hp)]
    exact .ok .plain
  · obtain ⟨inner', rest', hx, hi, hr⟩ := form_of_words h hy
    rw [hx, hy]
    exact .ok (.group hi hr)
  · rcases form_cases (trim x) with ⟨hq, -⟩ | ⟨-, ⟨inner, rest, hx⟩ | ⟨fault', hx⟩⟩
    · exact absurd (hh ▸ hp) hq
    · obtain ⟨inner', rest', hg, -⟩ := form_of_words h.symm hx
      rw [hy] at hg
      cases hg
    · rw [hx, hy]
      exact .malformed fault' fault

end Forms

section Reading

theorem plainDeclaration_of_words (h : words x = words y) :
    plainDeclaration x = plainDeclaration y := by
  rw [plainDeclaration, plainDeclaration, h]

theorem groupEnd_of_words (h : words x = words y) : groupEnd x = groupEnd y := by
  rw [groupEnd, groupEnd, h]

theorem trim_eq_nil_of_words (h : words x = words y) : trim x = [] ↔ trim y = [] := by
  rw [trim_eq_nil_iff, trim_eq_nil_iff, ink_eq_of_words h]

/-- Declarations of the same words are read alike, if the shorter texts within their parentheses
    are. -/
theorem declaration_alike (h : words x = words y)
    (hi : ∀ inner inner', inner.length < x.length → words inner = words inner' →
      Alike Eq (parseList inner) (parseList inner')) :
    Alike Eq (declaration x) (declaration y) := by
  have hb := trim_eq_nil_of_words h
  by_cases hn : trim y = []
  · rw [declaration_of_trim_nil hn, declaration_of_trim_nil (hb.2 hn)]
    exact .refl _
  · rw [declaration_eq hn, declaration_eq (mt hb.1 hn)]
    refine .bind (form_alike h) fun _ _ hf hs => ?_
    cases hs with
    | plain =>
      rw [plainDeclaration_of_words ((words_trim x).trans (h.trans (words_trim y).symm))]
      exact .refl _
    | @group inner rest inner' rest' hw hr =>
      have hl := Nat.lt_of_lt_of_le (form_length_lt hf) (trim_length_le x)
      refine .bind (hi inner inner' hl hw) fun _ _ _ hm => ?_
      rw [hm, groupEnd_of_words hr]
      exact .refl _

theorem parseList_alike (h : words x = words y) : Alike Eq (parseList x) (parseList y) := by
  induction hn : x.length using Nat.strongRecOn generalizing x y with
  | ind n ih =>
    have hb := trim_eq_nil_of_words h
    rw [parseList_eq, parseList_eq]
    by_cases ht : trim y = []
    · rw [if_pos ht, if_pos (hb.2 ht)]
      exact .refl _
    · rw [if_neg ht, if_neg (mt hb.1 ht)]
      cases hy : split y with
      | ok ps =>
        obtain ⟨qs, hx, hw⟩ := split_of_words h hy
        have hm : ∀ q ∈ qs, q.length ≤ n := fun q hq => hn ▸ split_length_le hx hq
        rw [hx]
        refine .mapM (((List.forall₂_and_left _ _).2 ⟨hm, hw⟩).imp fun q p hq => ?_)
        exact declaration_alike hq.2 fun inner inner' hl hi =>
          ih inner.length (Nat.lt_of_lt_of_le hl hq.1) hi rfl
      | error fault =>
        cases hx : split x with
        | ok qs =>
          obtain ⟨ps, hp, -⟩ := split_of_words h.symm hx
          rw [hy] at hp
          cases hp
        | error fault' => exact .malformed fault' fault

end Reading

/-- A schema may be spaced in any way: it is read as it is with one space for each run of blanks, and
    none at its ends. -/
theorem parse_squeezed (schema : String) :
    Alike Eq (parse schema) (parse (String.ofList (squeeze (trim schema.toList)))) := by
  rw [parse, parse, String.toList_ofList]
  apply parseList_alike
  rw [words_squeeze, words_trim]

end Schema

end Attest
