import Mathlib.Data.List.Forall2
import Attest.Schema.Brackets
import Attest.Proofs.Text.Blank

set_option autoImplicit false

namespace Attest.Schema

open Text

structure Scanner where
  opens : Char → Bool
  closes : Char → Bool
  /-- What must not stand at depth zero, and does not change the depth. -/
  cuts : Char → Bool

namespace Scanner

def step (s : Scanner) (depth : Nat) (c : Char) : Option Nat :=
  if s.opens c then some (depth + 1)
  else if s.closes c then if depth = 0 then none else some (depth - 1)
  else if s.cuts c && depth = 0 then none
  else some depth

def run (s : Scanner) (depth : Nat) (text : List Char) : Option Nat := text.foldlM s.step depth

/-- Whether a text opens all that it closes, closes all that it opens, and is not cut. -/
def Closed (s : Scanner) (text : List Char) : Prop := s.run 0 text = some 0

instance (s : Scanner) (text : List Char) : Decidable (s.Closed text) :=
  inferInstanceAs (Decidable (_ = _))

def Ignores (s : Scanner) (c : Char) : Prop :=
  s.opens c = false ∧ s.closes c = false ∧ s.cuts c = false

variable {s : Scanner} {depth next k : Nat} {c : Char} {x y text : List Char}

@[simp]
theorem run_nil (s : Scanner) (depth : Nat) : s.run depth [] = some depth := rfl

theorem run_cons (s : Scanner) (depth : Nat) (c : Char) (text : List Char) :
    s.run depth (c :: text) = (s.step depth c).bind fun next => s.run next text := rfl

theorem run_append (s : Scanner) (depth : Nat) (x y : List Char) :
    s.run depth (x ++ y) = (s.run depth x).bind fun next => s.run next y :=
  List.foldlM_append

theorem run_append_of (h : s.run depth x = some next) (y : List Char) :
    s.run depth (x ++ y) = s.run next y := by
  rw [run_append, h, Option.bind_some]

theorem step_of_ignores (h : s.Ignores c) (depth : Nat) : s.step depth c = some depth := by
  simp [step, h.1, h.2.1, h.2.2]

theorem run_cons_of_ignores (h : s.Ignores c) (depth : Nat) (text : List Char) :
    s.run depth (c :: text) = s.run depth text := by
  rw [run_cons, step_of_ignores h, Option.bind_some]

theorem run_of_ignores (h : ∀ c ∈ text, s.Ignores c) (depth : Nat) :
    s.run depth text = some depth := by
  induction text with
  | nil => rfl
  | cons c text ih =>
    rw [List.forall_mem_cons] at h
    rw [run_cons_of_ignores h.1, ih h.2]

theorem run_ink (hb : ∀ c, isBlank c = true → s.Ignores c) (depth : Nat) (text : List Char) :
    s.run depth (ink text) = s.run depth text := by
  induction text generalizing depth with
  | nil => rfl
  | cons c text ih =>
    cases hc : isBlank c
    · rw [ink_cons_of_ink hc, run_cons, run_cons]
      simp only [ih]
    · rw [ink_cons_of_blank hc, run_cons_of_ignores (hb c hc), ih]

theorem step_add (h : s.step depth c = some next) (k : Nat) :
    s.step (depth + k) c = some (next + k) := by
  unfold step at h ⊢
  cases ho : s.opens c <;> cases hl : s.closes c <;> simp [ho, hl] at h ⊢
  · obtain ⟨hc, rfl⟩ := h
    exact ⟨fun hk hz => absurd hz (hc hk), rfl⟩
  · omega
  · omega
  · omega

theorem run_add (h : s.run depth text = some next) (k : Nat) :
    s.run (depth + k) text = some (next + k) := by
  induction text generalizing depth with
  | nil =>
    cases h
    rfl
  | cons c text ih =>
    rw [run_cons, Option.bind_eq_some_iff] at h
    obtain ⟨between, hs, hr⟩ := h
    rw [run_cons, step_add hs, Option.bind_some, ih hr]

namespace Closed

theorem nil : s.Closed [] := rfl

theorem run (h : s.Closed text) (depth : Nat) : s.run depth text = some depth := by
  have hr := run_add h depth
  rwa [Nat.zero_add] at hr

theorem of_ignores (h : ∀ c ∈ text, s.Ignores c) : s.Closed text := run_of_ignores h 0

theorem append_iff (h : s.Closed x) : s.Closed (x ++ y) ↔ s.Closed y := by
  rw [Closed, run_append_of h, Closed]

theorem append (hx : s.Closed x) (hy : s.Closed y) : s.Closed (x ++ y) := hx.append_iff.2 hy

/-- A text in a pair of brackets is closed, when a scan that began inside ends there. -/
theorem enclose {first last : Char} (ho : s.opens first = true)
    (hl : s.opens last = false ∧ s.closes last = true) (h : s.run 1 text = some 1) :
    s.Closed (first :: text ++ [last]) := by
  have hf : s.step 0 first = some 1 := by simp [step, ho]
  have he : s.step 1 last = some 0 := by simp [step, hl]
  rw [Closed, List.cons_append, run_cons, hf, Option.bind_some, run_append_of h, run_cons, he]
  rfl

end Closed

end Scanner

open Scanner

/-- The scanner of round and square brackets together. It is cut by commas. -/
def brackets : Scanner := ⟨isOpening, isClosing, (· = ',')⟩

def parentheses : Scanner := ⟨(· = '('), (· = ')'), fun _ => false⟩

def isPlain (c : Char) : Bool := !(isBlank c || isOpening c || isClosing c || c = ',')

theorem isOpening_iff {c : Char} : isOpening c = true ↔ c = '(' ∨ c = '[' := by
  simp [isOpening]

theorem isClosing_iff {c : Char} : isClosing c = true ↔ c = ')' ∨ c = ']' := by
  simp [isClosing]

theorem brackets_ignores_blank {c : Char} (h : isBlank c = true) : brackets.Ignores c := by
  have hn : ∀ x : Char, isBlank x = false → c ≠ x := by
    rintro x hx rfl
    rw [h] at hx
    cases hx
  simp [Ignores, brackets, isOpening, isClosing, hn '(' rfl, hn '[' rfl, hn ')' rfl, hn ']' rfl,
    hn ',' rfl]

theorem parentheses_ignores {c : Char} (ho : isOpening c = false) (hc : isClosing c = false) :
    parentheses.Ignores c := by
  rw [← Bool.not_eq_true, isOpening_iff, not_or] at ho
  rw [← Bool.not_eq_true, isClosing_iff, not_or] at hc
  simp [Ignores, parentheses, ho.1, hc.1]

theorem parentheses_ignores_blank {c : Char} (h : isBlank c = true) : parentheses.Ignores c :=
  parentheses_ignores (brackets_ignores_blank h).1 (brackets_ignores_blank h).2.1

section Plain

variable {c : Char} {text : List Char}

theorem isPlain_iff : isPlain c = true ↔
    isBlank c = false ∧ isOpening c = false ∧ isClosing c = false ∧ c ≠ ',' := by
  simp [isPlain, and_assoc]

theorem brackets_ignores_plain (h : isPlain c = true) : brackets.Ignores c := by
  obtain ⟨-, ho, hc, hk⟩ := isPlain_iff.1 h
  exact ⟨ho, hc, decide_eq_false hk⟩

theorem parentheses_ignores_plain (h : isPlain c = true) : parentheses.Ignores c :=
  parentheses_ignores (isPlain_iff.1 h).2.1 (isPlain_iff.1 h).2.2.1

theorem unbroken_of_plain (h : ∀ c ∈ text, isPlain c = true) : Unbroken text :=
  fun c hc => (isPlain_iff.1 (h c hc)).1

theorem isPlain_of_isDigit (h : c.isDigit = true) : isPlain c = true := by
  have hd := toNat_of_isDigit h
  have hb : isBlank c = false := by
    simp only [isBlank]
    simp
    omega
  have hn : ∀ x : Char, x.toNat < 48 ∨ 57 < x.toNat → c ≠ x := by
    rintro x hx rfl
    omega
  rw [isPlain_iff]
  simp [hb, isOpening, isClosing, hn '(' (by decide), hn '[' (by decide), hn ')' (by decide),
    hn ']' (by decide), hn ',' (by decide)]

end Plain

section Pieces

variable {text inner rest : List Char} {depth : Nat}

/-- The characters at which `pieces` and `checkBalance` go on, and how. -/
theorem brackets_step (depth : Nat) (c : Char) : brackets.step depth c =
    if depth = 0 ∧ (isClosing c = true ∨ c = ',') then none else some (depthAfter depth c) := by
  have hc : isOpening c = true → isClosing c = false ∧ c ≠ ',' := by
    intro h
    rcases isOpening_iff.1 h with rfl | rfl <;> decide
  have hk : isClosing c = true → c ≠ ',' := by
    rintro h rfl
    cases h
  cases ho : isOpening c <;> cases hl : isClosing c <;>
    by_cases hd : depth = 0 <;> simp_all [step, brackets, depthAfter]

theorem pieces_ne_nil (depth : Nat) (text : List Char) : pieces depth text ≠ [] := by
  induction text generalizing depth with
  | nil => simp [pieces]
  | cons c text ih =>
    rw [pieces]
    split
    · simp
    · cases hp : pieces (depthAfter depth c) text with
      | nil => exact absurd hp (ih _)
      | cons _ _ => simp

theorem intercalate_pieces (depth : Nat) (text : List Char) :
    [','].intercalate (pieces depth text) = text := by
  induction text generalizing depth with
  | nil => rfl
  | cons c text ih =>
    rw [pieces]
    split
    · rename_i hc
      have hi := ih 0
      cases hp : pieces 0 text with
      | nil => exact absurd hp (pieces_ne_nil _ _)
      | cons p ps =>
        rw [hp] at hi
        rw [List.intercalate_cons_cons, hi, hc.1]
        rfl
    · have hi := ih (depthAfter depth c)
      cases hp : pieces (depthAfter depth c) text with
      | nil => exact absurd hp (pieces_ne_nil _ _)
      | cons p ps =>
        rw [hp] at hi
        rw [List.modifyHead_cons, ← hi]
        cases ps <;> simp [List.intercalate_cons_cons, List.intercalate_singleton]

theorem intercalate_cons (p : List Char) (ps : List (List Char)) :
    [','].intercalate (p :: ps) = p ++ ps.flatMap (',' :: ·) := by
  induction ps generalizing p with
  | nil => simp [List.intercalate_singleton]
  | cons q ps ih => rw [List.intercalate_cons_cons, ih, List.flatMap_cons]; simp

theorem checkBalance_eq_ok_iff {whole p : List Char} {ps : List (List Char)} (position : Nat)
    (hp : pieces depth text = p :: ps) : checkBalance whole depth position text = .ok () ↔
      brackets.run depth p = some 0 ∧ ∀ q ∈ ps, brackets.Closed q := by
  induction text generalizing depth position p ps with
  | nil =>
    cases hp
    by_cases hd : depth = 0 <;> simp [checkBalance, hd]
  | cons c text ih =>
    have hs := brackets_step depth c
    rw [pieces] at hp
    split at hp
    · rename_i hc
      obtain ⟨rfl, rfl⟩ := hc
      cases hp
      have hm : checkBalance whole 0 position (',' :: text) =
          checkBalance whole 0 (position + 1) text := rfl
      cases hq : pieces 0 text with
      | nil => exact absurd hq (pieces_ne_nil _ _)
      | cons q qs =>
        rw [hm, ih _ hq, List.forall_mem_cons]
        exact ⟨fun h => ⟨rfl, h⟩, fun h => h.2⟩
    · rename_i hc
      cases hq : pieces (depthAfter depth c) text with
      | nil => exact absurd hq (pieces_ne_nil _ _)
      | cons q qs =>
        rw [hq] at hp
        cases hp
        rw [run_cons, hs, checkBalance]
        by_cases hz : depth = 0 ∧ isClosing c = true
        · have ho : isOpening c = false := by
            rcases isClosing_iff.1 hz.2 with rfl | rfl <;> rfl
          simp [ho, hz]
        · have hn : ¬ (depth = 0 ∧ (isClosing c = true ∨ c = ',')) := by
            rintro ⟨hd, hl | hk⟩
            · exact hz ⟨hd, hl⟩
            · exact hc ⟨hk, hd⟩
          rw [if_neg hn, Option.bind_some, ← ih (position + c.utf8Size) hq]
          cases ho : isOpening c <;> cases hl : isClosing c <;> simp_all [depthAfter]

theorem pieces_append {p : List Char} (h : brackets.run depth p = some 0) (rest : List Char) :
    pieces depth (p ++ rest) = (pieces 0 rest).modifyHead (p ++ ·) := by
  induction p generalizing depth with
  | nil =>
    cases h
    cases hr : pieces 0 rest <;> simp [hr]
  | cons c p ih =>
    rw [run_cons, brackets_step] at h
    split at h
    · cases h
    · rename_i hn
      have hc : ¬ (c = ',' ∧ depth = 0) := fun hc => hn ⟨hc.2, .inr hc.1⟩
      rw [List.cons_append, pieces, if_neg hc, ih h]
      cases pieces 0 rest <;> simp

theorem pieces_intercalate {p : List Char} {ps : List (List Char)}
    (h : ∀ q ∈ p :: ps, brackets.Closed q) : pieces 0 ([','].intercalate (p :: ps)) = p :: ps := by
  induction ps generalizing p with
  | nil =>
    have hp := pieces_append (h p (by simp)) []
    simpa [List.intercalate_singleton, pieces] using hp
  | cons q ps ih =>
    rw [List.forall_mem_cons] at h
    rw [List.intercalate_cons_cons, List.append_assoc, pieces_append h.1]
    simp [pieces, ih h.2]

/-- A text is cut into pieces that are closed and make up the text, joined by commas. -/
theorem split_eq_ok_iff {ps : List (List Char)} : split text = .ok ps ↔
    ps ≠ [] ∧ (∀ p ∈ ps, brackets.Closed p) ∧ [','].intercalate ps = text := by
  have hok : ∀ {p qs}, pieces 0 text = p :: qs → (checkBalance text 0 0 text = .ok () ↔
      ∀ q ∈ p :: qs, brackets.Closed q) := by
    intro p qs hp
    rw [checkBalance_eq_ok_iff 0 hp, List.forall_mem_cons, Closed]
  constructor
  · intro h
    have hi := intercalate_pieces 0 text
    unfold split at h
    split at h
    · rename_i hb
      cases h
      cases hp : pieces 0 text with
      | nil => exact absurd hp (pieces_ne_nil 0 text)
      | cons p qs =>
        rw [hp] at hi
        exact ⟨by simp, (hok hp).1 hb, hi⟩
    · cases h
  · rintro ⟨hn, hc, rfl⟩
    obtain ⟨p, qs, rfl⟩ := List.exists_cons_of_ne_nil hn
    have hp := pieces_intercalate hc
    rw [split, (hok hp).2 hc, hp]

end Pieces

theorem closing?_eq_some_iff {depth : Nat} {text inner rest : List Char} :
    closing? depth text = some (inner, rest) ↔
      text = inner ++ ')' :: rest ∧ parentheses.run depth inner = some 0 := by
  have hs : ∀ depth c, parentheses.step depth c = if c = ')' ∧ depth = 0 then none
      else some (if c = '(' then depth + 1 else if c = ')' then depth - 1 else depth) := by
    intro depth c
    by_cases ho : c = '('
    · subst ho
      rfl
    · by_cases hc : c = ')' <;> by_cases hd : depth = 0 <;> simp [step, parentheses, ho, hc, hd]
  induction text generalizing depth inner with
  | nil => simp [closing?]
  | cons c text ih =>
    rw [closing?]
    split
    · rename_i hc
      obtain ⟨rfl, rfl⟩ := hc
      constructor
      · intro h
        cases h
        exact ⟨rfl, rfl⟩
      · rintro ⟨ht, hr⟩
        cases inner with
        | nil =>
          cases ht
          rfl
        | cons x inner =>
          obtain ⟨rfl, -⟩ := List.cons.inj ht
          rw [run_cons, hs] at hr
          cases hr
    · rename_i hc
      rw [Option.map_eq_some_iff]
      constructor
      · rintro ⟨⟨before, after⟩, hb, he⟩
        cases he
        obtain ⟨rfl, hr⟩ := ih.1 hb
        rw [run_cons, hs, if_neg hc]
        exact ⟨rfl, hr⟩
      · rintro ⟨ht, hr⟩
        cases inner with
        | nil =>
          obtain ⟨rfl, -⟩ := List.cons.inj ht
          exact absurd ⟨rfl, Option.some.inj hr⟩ hc
        | cons x inner =>
          obtain ⟨rfl, he⟩ := List.cons.inj ht
          rw [run_cons, hs, if_neg hc] at hr
          exact ⟨(inner, rest), ih.2 ⟨he, hr⟩, rfl⟩

section Joining

variable {s : Scanner} {ps ns : List (List Char)}

theorem run_intercalate {c : Char} (hc : s.Ignores c)
    (h : List.Forall₂ (fun p n => ∀ depth, s.run depth p = s.run depth n) ps ns) (depth : Nat) :
    s.run depth ([c].intercalate ps) = s.run depth ns.flatten := by
  induction h generalizing depth with
  | nil => rfl
  | @cons p n ps ns hp hs ih =>
    cases ps with
    | nil =>
      cases hs
      simp [List.intercalate_singleton, hp]
    | cons q ps =>
      rw [List.intercalate_cons_cons, List.append_assoc, List.flatten_cons, run_append, run_append,
        hp]
      congr 1
      funext next
      rw [List.singleton_append, run_cons_of_ignores hc, ih]

/-- Inside a bracket commas do not cut. -/
theorem brackets_run_intercalate (h : ∀ p ∈ ps, brackets.Closed p) (depth : Nat) :
    brackets.run (depth + 1) ([','].intercalate ps) = some (depth + 1) := by
  induction ps with
  | nil => rfl
  | cons p ps ih =>
    rw [List.forall_mem_cons] at h
    have hp := h.1.run (depth + 1)
    cases ps with
    | nil => simpa [List.intercalate_singleton] using hp
    | cons q ps =>
      have hc : brackets.step (depth + 1) ',' = some (depth + 1) := rfl
      rw [List.intercalate_cons_cons, List.append_assoc, run_append_of hp, List.singleton_append,
        run_cons, hc, Option.bind_some, ih h.2]

end Joining

end Attest.Schema
