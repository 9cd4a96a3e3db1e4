import Attest.Proofs.Result
import Attest.Proofs.Schema.Types

set_option autoImplicit false

/-!
# What schema texts declare

The declarations of a schema are legible: sizes are in range, tuples have fields, and names hold no
blanks and close the brackets that they open. Names may hold brackets, so a name alone may close a
parenthesis that another name of the tuple opens; only the names of a tuple together close all of
them.
-/
namespace Attest

open Schema Text

namespace Declaration

def names (declarations : List Declaration) : List Char :=
  declarations.flatMap fun d => d.name.toList

end Declaration

namespace Descriptor

def isTuple : Descriptor → Bool
  | .tuple _ => true
  | _ => false

/-- Whether a name can stand behind the text of a type. Behind a parenthesis, a square bracket is
    taken for a suffix. -/
def Accepts (type : Descriptor) (name : List Char) : Prop :=
  Unbroken name ∧ brackets.Closed name ∧ (type.isTuple = true → name.head? ≠ some '[')

mutual

/-- Whether a schema text can declare something of the type. -/
def Legible : Descriptor → Prop
  | .fixedBytes size => 1 ≤ size ∧ size ≤ 32
  | .tuple fields =>
    fields ≠ [] ∧ parentheses.Closed (Declaration.names fields) ∧ AllLegible fields
  | .fixedArray size element => (1 ≤ size ∧ size ≤ sizeMax) ∧ element.Legible
  | .array element => element.Legible
  | _ => True

def AllLegible : List Declaration → Prop
  | [] => True
  | ⟨name, type⟩ :: fields => (type.Accepts name.toList ∧ type.Legible) ∧ AllLegible fields

end

end Descriptor

namespace Descriptor

instance (type : Descriptor) (name : List Char) : Decidable (type.Accepts name) :=
  inferInstanceAs (Decidable (_ ∧ _ ∧ _))

mutual

def decidableLegible : (type : Descriptor) → Decidable type.Legible
  | .fixedBytes _ => inferInstanceAs (Decidable (_ ∧ _))
  | .tuple fields =>
    have := decidableAllLegible fields
    inferInstanceAs (Decidable (_ ∧ _ ∧ _))
  | .fixedArray _ element =>
    have := decidableLegible element
    inferInstanceAs (Decidable (_ ∧ _))
  | .array element => decidableLegible element
  | .address | .bool | .string | .bytes | .uint _ | .uint256 => .isTrue trivial

def decidableAllLegible : (fields : List Declaration) → Decidable (AllLegible fields)
  | [] => .isTrue trivial
  | ⟨_, type⟩ :: fields =>
    have := decidableLegible type
    have := decidableAllLegible fields
    inferInstanceAs (Decidable ((_ ∧ _) ∧ _))

end

instance (type : Descriptor) : Decidable type.Legible := decidableLegible type

instance (fields : List Declaration) : Decidable (AllLegible fields) := decidableAllLegible fields

end Descriptor

open Descriptor

def Declaration.Legible (d : Declaration) : Prop := d.item.Accepts d.name.toList ∧ d.item.Legible

namespace Descriptor

theorem allLegible_iff {fields : List Declaration} :
    AllLegible fields ↔ ∀ d ∈ fields, d.Legible := by
  induction fields with
  | nil => exact ⟨fun _ => nofun, fun _ => trivial⟩
  | cons d fields ih => rw [AllLegible, ih, List.forall_mem_cons, Declaration.Legible]

theorem Elementary.legible {type : Descriptor} (h : type.Elementary) : type.Legible := by
  cases type with
  | fixedBytes size => exact h
  | tuple _ | fixedArray _ _ | array _ => exact h.elim
  | _ => trivial

theorem Elementary.isTuple {type : Descriptor} (h : type.Elementary) : type.isTuple = false := by
  cases type <;> first | rfl | exact h.elim

end Descriptor

namespace Schema

section Wrapping

variable {type wrapped : Descriptor} {text : List Char}

theorem Suffixes.legible (h : Suffixes type text wrapped) (ht : type.Legible) :
    wrapped.Legible := by
  induction h with
  | nil => exact ht
  | cons hd _ ih =>
    apply ih
    rcases (dimensioned_sound hd).1 with rfl | ⟨size, hn, hm, rfl⟩
    · exact ht
    · exact ⟨⟨hn, hm⟩, ht⟩

theorem Suffixes.isTuple (h : Suffixes type text wrapped) (ht : wrapped.isTuple = true) :
    text = [] ∧ type.isTuple = true := by
  induction h with
  | nil => exact ⟨rfl, ht⟩
  | cons hd _ ih =>
    have hn := (ih ht).2
    rcases (dimensioned_sound hd).1 with rfl | ⟨size, -, -, rfl⟩ <;> cases hn

theorem plainType_sound (h : plainType text = .ok type) :
    (type.Legible ∧ type.isTuple = false) ∧ brackets.Closed text ∧
      ∀ depth, parentheses.run depth text = some depth := by
  obtain ⟨base, suffixes, inner, rfl, he, hs⟩ := plainType_eq_ok_iff.1 h
  obtain ⟨hi, -, hp⟩ := elementary_sound he
  have hb : brackets.Closed base := .of_ignores fun c hc => brackets_ignores_plain (hp c hc)
  refine ⟨⟨hs.legible hi.legible, ?_⟩, hb.append hs.brackets_closed, Scanner.run_of_ignores ?_⟩
  · cases ht : type.isTuple with
    | false => rfl
    | true =>
      have hn := (hs.isTuple ht).2
      rw [hi.isTuple] at hn
      cases hn
  · exact List.forall_mem_append.2
      ⟨fun c hc => parentheses_ignores_plain (hp c hc), hs.parentheses_ignores⟩

end Wrapping

section Words

variable {s : Scanner} {text rest : List Char} {ws : List (List Char)} {depth next : Nat}

theorem splitName_flatten (hn : ws ≠ []) :
    ws.flatten = ws.dropLast.flatten ++ (splitName ws).2 := by
  have hl : (splitName ws).2 = ws.getLast hn := by
    simp [splitName, List.getLast?_eq_some_getLast hn]
  have hd := congrArg List.flatten (List.dropLast_concat_getLast hn)
  rw [hl, ← hd]
  simp

theorem splitName_mem (hn : ws ≠ []) : (splitName ws).2 ∈ ws := by
  simp [splitName, List.getLast?_eq_some_getLast hn]

theorem run_splitName (hb : ∀ c, isBlank c = true → s.Ignores c) (hn : ws ≠ [])
    (h : s.run depth (splitName ws).1 = some next) :
    s.run depth ws.flatten = s.run next (splitName ws).2 := by
  have hj : s.run depth ([' '].intercalate ws.dropLast) = s.run depth ws.dropLast.flatten :=
    run_intercalate (hb ' ' rfl) (List.forall₂_same.2 fun _ _ _ => rfl) depth
  rw [splitName_flatten hn]
  exact Scanner.run_append_of (hj.symm.trans h) _

theorem run_groupEnd (hb : ∀ c, isBlank c = true → s.Ignores c)
    (h : s.run depth (groupEnd rest).1 = some next) :
    s.run depth rest = s.run next (groupEnd rest).2 := by
  rw [← Scanner.run_ink hb, ← words_flatten]
  unfold groupEnd at h ⊢
  split at h
  · rename_i hw
    cases h
    rw [hw]
    rfl
  · rename_i word hw
    rw [hw]
    split at h
    · rename_i hh
      simpa [hh] using h
    · rename_i hh
      cases h
      simp [hh]
  · rename_i hn _
    exact run_splitName hb hn h

theorem groupEnd_name (rest : List Char) : Unbroken (groupEnd rest).2 ∧
    ((groupEnd rest).1 = [] → (groupEnd rest).2.head? ≠ some '[') := by
  unfold groupEnd
  split
  · exact ⟨nofun, nofun⟩
  · rename_i word hw
    have hu : Unbroken word := unbroken_of_mem_words (hw ▸ List.mem_singleton_self word)
    split
    · exact ⟨nofun, nofun⟩
    · rename_i hh
      exact ⟨hu, fun _ => hh⟩
  · rename_i hn hs
    refine ⟨unbroken_of_mem_words (splitName_mem hn), fun he => ?_⟩
    -- Of two words or more, the first is among the suffixes.
    cases hw : words rest with
    | nil => exact absurd hw hn
    | cons first others =>
      have hf : first ≠ [] := ne_nil_of_mem_words (hw ▸ List.mem_cons_self)
      cases others with
      | nil => exact absurd hw (hs first)
      | cons second others =>
        rw [hw] at he
        cases others <;> simp [splitName, List.intercalate_cons_cons, List.intercalate_singleton, hf] at he

end Words

section Forms

variable {text inner rest : List Char}

theorem form_of_head (h : text.head? ≠ some '(') : form text = .ok .plain := by
  unfold form
  split
  · exact absurd rfl h
  · rfl

theorem form_group_iff : form text = .ok (.group inner rest) ↔
    text = '(' :: inner ++ ')' :: rest ∧ parentheses.Closed inner := by
  by_cases hp : text.head? = some '('
  · obtain ⟨body, rfl⟩ := List.head?_eq_some_iff.1 hp
    rw [List.cons_append, List.cons.injEq, Scanner.Closed, and_iff_right rfl,
      ← closing?_eq_some_iff, form]
    cases closing? 0 body with
    | none => simp
    | some found => cases found; simp
  · rw [form_of_head hp]
    constructor
    · intro h
      cases h
    · rintro ⟨rfl, -⟩
      exact absurd rfl hp

end Forms

section Reading

variable {text piece : List Char} {d : Declaration} {declarations : List Declaration}

structure DeclaredBy (piece : List Char) (d : Declaration) : Prop where
  legible : d.Legible
  run : ∀ depth, parentheses.run depth piece = parentheses.run depth d.name.toList

/-- What declarations tell about the text that they were read from. -/
structure Declares (text : List Char) (declarations : List Declaration) : Prop where
  legible : AllLegible declarations
  inside : ∀ depth, brackets.run (depth + 1) text = some (depth + 1)
  run : ∀ depth,
    parentheses.run depth text = parentheses.run depth (Declaration.names declarations)

theorem accepts_nil (type : Descriptor) : type.Accepts [] :=
  ⟨nofun, .nil, fun _ => nofun⟩

theorem plainDeclaration_sound (hc : brackets.Closed text) (h : plainDeclaration text = .ok d) :
    DeclaredBy text d := by
  unfold plainDeclaration at h
  split at h
  · cases h
  · rename_i word hw
    obtain ⟨type, ht, h⟩ := Result.bind_eq_ok.1 h
    cases h
    obtain ⟨⟨hl, -⟩, -, hp⟩ := plainType_sound ht
    refine ⟨⟨accepts_nil type, hl⟩, fun depth => ?_⟩
    rw [← Scanner.run_ink fun _ => parentheses_ignores_blank, ← words_flatten, hw]
    simpa using hp depth
  · rename_i hn _
    obtain ⟨type, ht, h⟩ := Result.bind_eq_ok.1 h
    cases h
    obtain ⟨⟨hl, hg⟩, hb, hp⟩ := plainType_sound ht
    have hm := splitName_mem hn
    have hr : ∀ {s : Scanner}, (∀ c, isBlank c = true → s.Ignores c) →
        ∀ depth, s.run depth (splitName (words text)).1 = some depth →
          s.run depth text = s.run depth (splitName (words text)).2 := by
      intro s hs depth hd
      rw [← Scanner.run_ink hs, ← words_flatten, run_splitName hs hn hd]
    rw [Scanner.Closed, hr (fun _ => brackets_ignores_blank) 0 hb] at hc
    refine ⟨⟨⟨?_, ?_, ?_⟩, hl⟩, fun depth => ?_⟩
    · rw [String.toList_ofList]
      exact unbroken_of_mem_words hm
    · rw [String.toList_ofList]
      exact hc
    · rw [hg]
      exact fun ht => absurd ht Bool.false_ne_true
    · rw [String.toList_ofList]
      exact hr (fun _ => parentheses_ignores_blank) depth (hp depth)

theorem declaration_eq (hn : trim piece ≠ []) : declaration piece = (do
    match ← form (trim piece) with
    | .plain => plainDeclaration (trim piece)
    | .group inner rest =>
      let members ← parseList inner
      let tuple ← tupleOf members
      let type ← suffixed tuple (groupEnd rest).1
      return ⟨String.ofList (groupEnd rest).2, type⟩) := by
  rw [declaration, declarationWith, if_neg hn]
  split <;> rename_i hf <;> rw [hf] <;> rfl

theorem tupleOf_eq_ok_iff {type : Descriptor} :
    tupleOf declarations = .ok type ↔ declarations ≠ [] ∧ type = .tuple declarations := by
  unfold tupleOf
  cases declarations <;> simp [eq_comm]

theorem Declares.legible_tuple (h : Declares text declarations) (hc : parentheses.Closed text)
    (hn : declarations ≠ []) : (Descriptor.tuple declarations).Legible := by
  rw [Scanner.Closed, h.run] at hc
  exact ⟨hn, hc, h.legible⟩

theorem Declares.group {inner rest : List Char} (hi : Declares inner declarations)
    (hp : parentheses.Closed inner) (hc : brackets.Closed ('(' :: inner ++ ')' :: rest)) :
    brackets.Closed rest ∧ (declarations ≠ [] → (Descriptor.tuple declarations).Legible) := by
  have ho : brackets.run 0 ('(' :: inner ++ ')' :: rest) = brackets.run 1 (inner ++ ')' :: rest) :=
    rfl
  have hl : brackets.run 1 (')' :: rest) = brackets.run 0 rest := rfl
  rw [Scanner.Closed, ho, Scanner.run_append_of (hi.inside 0), hl] at hc
  exact ⟨hc, hi.legible_tuple hp⟩

theorem declaration_sound
    (hi : ∀ inner members, inner.length < piece.length → parseList inner = .ok members →
      Declares inner members)
    (hc : brackets.Closed piece) (h : declaration piece = .ok d) : DeclaredBy piece d := by
  have hct : brackets.Closed (trim piece) := by
    rwa [Scanner.Closed, ← Scanner.run_ink fun _ => brackets_ignores_blank, ink_trim,
      Scanner.run_ink fun _ => brackets_ignores_blank]
  have hpt : ∀ depth, parentheses.run depth piece = parentheses.run depth (trim piece) := by
    intro depth
    rw [← Scanner.run_ink fun _ => parentheses_ignores_blank, ← ink_trim,
      Scanner.run_ink fun _ => parentheses_ignores_blank]
  by_cases hn : trim piece = []
  · rw [declaration, declarationWith, if_pos hn] at h
    cases h
  rw [declaration_eq hn, Result.bind_eq_ok] at h
  obtain ⟨found, hf, h⟩ := h
  cases found with
  | plain =>
    obtain ⟨hl, hr⟩ := plainDeclaration_sound hct h
    exact ⟨hl, fun depth => (hpt depth).trans (hr depth)⟩
  | group inner rest =>
    obtain ⟨members, hm, h⟩ := Result.bind_eq_ok.1 h
    obtain ⟨tuple, htu, h⟩ := Result.bind_eq_ok.1 h
    obtain ⟨hne, rfl⟩ := tupleOf_eq_ok_iff.1 htu
    obtain ⟨type, hs, h⟩ := Result.bind_eq_ok.1 h
    cases h
    obtain ⟨ht, hp⟩ := form_group_iff.1 hf
    have hl : inner.length < piece.length :=
      Nat.lt_of_lt_of_le (form_length_lt hf) (trim_length_le piece)
    rw [ht] at hct
    obtain ⟨hr, hg⟩ := (hi inner members hl hm).group hp hct
    have hw := suffixed_eq_ok_iff.1 hs
    have hb := run_groupEnd (fun _ => brackets_ignores_blank) (hw.brackets_closed.run 0)
    obtain ⟨hu, hx⟩ := groupEnd_name rest
    refine ⟨⟨⟨?_, ?_, ?_⟩, hw.legible (hg hne)⟩, fun depth => ?_⟩
    · rwa [String.toList_ofList]
    · rwa [String.toList_ofList, Scanner.Closed, ← hb]
    · rw [String.toList_ofList]
      exact fun hit => hx (hw.isTuple hit).1
    · have ho : parentheses.run depth ('(' :: inner ++ ')' :: rest) =
          parentheses.run (depth + 1) (inner ++ ')' :: rest) := rfl
      have hcl : parentheses.run (depth + 1) (')' :: rest) = parentheses.run depth rest := rfl
      rw [hpt, ht, ho, Scanner.run_append_of (hp.run (depth + 1)), hcl, String.toList_ofList]
      exact run_groupEnd (fun _ => parentheses_ignores_blank)
        (Scanner.run_of_ignores hw.parentheses_ignores depth)

theorem Declares.of_pieces {ps : List (List Char)} (hc : ∀ p ∈ ps, brackets.Closed p)
    (hd : List.Forall₂ DeclaredBy ps declarations) :
    Declares ([','].intercalate ps) declarations := by
  have hl : AllLegible declarations := by
    clear hc
    induction hd with
    | nil => trivial
    | cons h _ ih => exact ⟨h.legible, ih⟩
  have hr : List.Forall₂ (fun p n => ∀ depth, parentheses.run depth p = parentheses.run depth n) ps
      (declarations.map fun d => d.name.toList) :=
    List.forall₂_map_right_iff.2 (hd.imp fun _ _ h => h.run)
  exact ⟨hl, brackets_run_intercalate hc, run_intercalate ⟨rfl, rfl, rfl⟩ hr⟩

/-- The declarations read from a text are legible, and their names open and close the parentheses
    that the text opens and closes. -/
theorem parseList_sound (h : parseList text = .ok declarations) : Declares text declarations := by
  -- What a tuple has in its parentheses is a shorter text.
  induction hn : text.length using Nat.strongRecOn generalizing text declarations with
  | ind n ih =>
    rw [parseList_eq] at h
    split at h
    · rename_i ht
      cases h
      have hk := trim_eq_nil_iff.1 ht
      refine ⟨trivial, fun depth => ?_, fun depth => ?_⟩
      · rw [← Scanner.run_ink fun _ => brackets_ignores_blank, hk]
        rfl
      · rw [← Scanner.run_ink fun _ => parentheses_ignores_blank, hk]
        rfl
    · split at h
      · cases h
      · rename_i ps hs
        obtain ⟨-, hc, rfl⟩ := split_eq_ok_iff.1 hs
        have hm : ∀ p ∈ ps, brackets.Closed p ∧ p.length ≤ n :=
          fun p hp => ⟨hc p hp, hn ▸ split_length_le hs hp⟩
        have hf := (List.forall₂_and_left _ _).2 ⟨hm, Result.mapM_eq_ok.1 h⟩
        refine .of_pieces hc (hf.imp fun p d hp => declaration_sound ?_ hp.1.1 hp.2)
        intro inner members hl hi
        exact ih inner.length (Nat.lt_of_lt_of_le hl hp.1.2) hi rfl

end Reading

end Schema

end Attest
