import Attest.Proofs.Schema.Unwrapping
import Attest.Registry

set_option autoImplicit false

/-!
# Canonical schema texts

The canonical text of a schema is the text of its declarations, or of the fields alone where the
schema is one tuple without a name. Declarations are read back from it with that one tuple lost, so
writing them again loses the next one, if the tuple has one tuple without a name as its only field.
-/
namespace Attest

open Schema

namespace Declaration

def loneFields? : List Declaration → Option (List Declaration)
  | [⟨name, .tuple fields⟩] => if name = "" then some fields else none
  | _ => none

/-- The declarations without one tuple around all of them. -/
def unwrapped (declarations : List Declaration) : List Declaration :=
  (loneFields? declarations).getD declarations

variable {declarations fields : List Declaration}

theorem loneFields?_eq_some_iff :
    loneFields? declarations = some fields ↔ declarations = [unnamed (.tuple fields)] := by
  unfold loneFields?
  split
  · rename_i name members
    by_cases hn : name = "" <;> simp [unnamed, hn]
  · rename_i hn
    constructor
    · intro h
      cases h
    · rintro rfl
      exact absurd rfl (hn _ _)

theorem unwrapped_lone (fields : List Declaration) :
    unwrapped [unnamed (.tuple fields)] = fields := by
  rw [unwrapped, loneFields?_eq_some_iff.2 rfl, Option.getD_some]

theorem unwrapped_of_not_lone (h : ∀ fields, declarations ≠ [unnamed (.tuple fields)]) :
    unwrapped declarations = declarations := by
  have hn : loneFields? declarations = none :=
    Option.eq_none_iff_forall_ne_some.2 fun fields hf => h fields (loneFields?_eq_some_iff.1 hf)
  rw [unwrapped, hn, Option.getD_none]

end Declaration

open Declaration Descriptor

namespace Schema

variable {schema : String} {declarations fields : List Declaration}

theorem closed_joined_of_mem {d : Declaration} (h : AllLegible declarations)
    (hd : d ∈ declarations) (hc : d.item.core = .tuple fields) :
    parentheses.Closed (joined fields) := by
  rcases core_elementary_or_tuple d.item (allLegible_iff.1 h d hd).2 with he | ⟨members, hm, hl⟩
  · exact absurd hc (he.ne_tuple fields)
  · rw [hc] at hm
    cases hm
    exact closed_joined hl

theorem render_eq_joined (h : AllLegible declarations) :
    render declarations = joined (unwrapped declarations) := by
  obtain ⟨hl, hn⟩ := render_of_closed fun d hd fields hc => closed_joined_of_mem h hd hc
  by_cases hx : ∃ fields, declarations = [unnamed (.tuple fields)]
  · obtain ⟨fields, rfl⟩ := hx
    rw [unwrapped_lone]
    exact hl fields rfl
  · have hx : ∀ fields, declarations ≠ [unnamed (.tuple fields)] := not_exists.1 hx
    rw [unwrapped_of_not_lone hx]
    exact hn hx

theorem legible_unwrapped (h : AllLegible declarations) : AllLegible (unwrapped declarations) := by
  unfold unwrapped
  cases hf : loneFields? declarations with
  | none => exact h
  | some fields =>
    rw [loneFields?_eq_some_iff] at hf
    rw [hf] at h
    exact h.1.2.2.2

theorem parse_format_of_legible (h : AllLegible declarations) :
    parse (format declarations) = .ok (unwrapped declarations) := by
  rw [parse, format, String.toList_ofList, render_eq_joined h,
    parseList_joined_of_legible (legible_unwrapped h)]

/-- Writing a parsed schema and reading it again loses one tuple around all declarations, and
    nothing else. -/
theorem parse_format (h : parse schema = .ok declarations) :
    (∀ fields, declarations = [unnamed (.tuple fields)] → parse (format declarations) = .ok fields) ∧
      ((∀ fields, declarations ≠ [unnamed (.tuple fields)]) →
        parse (format declarations) = .ok declarations) := by
  have hp := parse_format_of_legible (parseList_sound h).legible
  constructor
  · rintro fields rfl
    rw [hp, unwrapped_lone]
  · intro hn
    rw [hp, unwrapped_of_not_lone hn]

theorem parse_of_joined (h : AllLegible declarations) (hs : schema.toList = joined declarations) :
    parse schema = .ok declarations := by
  rw [parse, hs, parseList_joined_of_legible h]

theorem parse_format_brackets :
    parse "bool a(b,c), bool [2], bool x(]" =
        .ok [⟨"a(b,c)", .bool⟩, ⟨"[2]", .bool⟩, ⟨"x(]", .bool⟩] ∧
      parse (format [⟨"a(b,c)", .bool⟩, ⟨"[2]", .bool⟩, ⟨"x(]", .bool⟩]) =
        .ok [⟨"a(b,c)", .bool⟩, ⟨"[2]", .bool⟩, ⟨"x(]", .bool⟩] := by
  have hp : parse "bool a(b,c), bool [2], bool x(]" =
      .ok [⟨"a(b,c)", .bool⟩, ⟨"[2]", .bool⟩, ⟨"x(]", .bool⟩] :=
    parse_of_joined (by decide) (by decide)
  exact ⟨hp, (parse_format hp).2 (by simp)⟩

theorem parse_parenthesized (h : AllLegible [unnamed (.tuple fields)]) :
    parse ("(" ++ format [unnamed (.tuple fields)] ++ ")") = .ok [unnamed (.tuple fields)] := by
  apply parse_of_joined h
  rw [joined_lone, format, render_eq_joined h, unwrapped_lone]
  simp

def canonical (schema : String) : Result String := (parse schema).map format

def passes : Nat → String → Result String
  | 0, schema => .ok schema
  | n + 1, schema => do passes n (← canonical schema)

def enclosed : Nat → String → String
  | 0, inside => inside
  | n + 1, inside => "(" ++ enclosed n inside ++ ")"

/-- Declarations in so many tuples without names. -/
def nest : Nat → List Declaration → List Declaration
  | 0, declarations => declarations
  | n + 1, declarations => [unnamed (.tuple (nest n declarations))]

theorem ofList_joined_nest (n : Nat) (declarations : List Declaration) :
    String.ofList (joined (nest n declarations)) =
      enclosed n (String.ofList (joined declarations)) := by
  induction n with
  | zero => rfl
  | succ n ih =>
    rw [nest, joined_lone, enclosed, ← ih]
    apply String.toList_inj.1
    simp

theorem exists_nest (declarations : List Declaration) :
    ∃ n inner, declarations = nest n inner ∧ ∀ fields, inner ≠ [unnamed (.tuple fields)] := by
  by_cases h : ∃ fields, declarations = [unnamed (.tuple fields)]
  · obtain ⟨fields, hd⟩ := h
    obtain ⟨n, inner, hf, hi⟩ := exists_nest fields
    exact ⟨n + 1, inner, by rw [nest, ← hf, hd], hi⟩
  · exact ⟨0, declarations, rfl, fun fields hf => h ⟨fields, hf⟩⟩
termination_by sizeOf declarations
decreasing_by
  rw [hd]
  simp [unnamed]
  omega

section Passes

variable {inner : List Declaration}

theorem canonical_of_joined {next : String} (h : AllLegible declarations)
    (hs : schema.toList = joined declarations)
    (hn : next.toList = joined (unwrapped declarations)) : canonical schema = .ok next := by
  have hf : format declarations = next := by
    rw [format, render_eq_joined h, ← hn, String.ofList_toList]
  rw [canonical, parse_of_joined h hs, Except.map, hf]

theorem canonical_joined (h : AllLegible declarations) :
    canonical (String.ofList (joined declarations)) =
      .ok (String.ofList (joined (unwrapped declarations))) :=
  canonical_of_joined h String.toList_ofList String.toList_ofList

theorem unwrapped_nest (hi : ∀ fields, inner ≠ [unnamed (.tuple fields)]) (k : Nat) :
    unwrapped (nest k inner) = nest (k - 1) inner := by
  cases k with
  | zero => exact unwrapped_of_not_lone hi
  | succ k => exact unwrapped_lone _

/-- Each pass drops one pair of parentheses, as long as there is one. -/
theorem passes_nest (hi : ∀ fields, inner ≠ [unnamed (.tuple fields)]) {k : Nat}
    (h : AllLegible (nest k inner)) (n : Nat) :
    passes n (String.ofList (joined (nest k inner))) =
      .ok (String.ofList (joined (nest (k - n) inner))) := by
  induction n generalizing k with
  | zero => rfl
  | succ n ih =>
    have hu := unwrapped_nest hi k
    have hl := legible_unwrapped h
    rw [hu] at hl
    have hk : k - (n + 1) = k - 1 - n := by omega
    rw [passes, canonical_joined h, hu, hk]
    exact ih hl

/-- The canonical text of a schema is its own canonical text, unless the schema is a tuple without
    a name in another one. Then each pass drops one pair of parentheses, until there is none left,
    and all further passes agree. -/
theorem passes_format (h : parse schema = .ok declarations) :
    ((∀ fields, declarations ≠ [unnamed (.tuple [unnamed (.tuple fields)])]) →
        ∀ n, passes n (format declarations) = .ok (format declarations)) ∧
      (∀ fields, declarations = [unnamed (.tuple [unnamed (.tuple fields)])] →
        ∃ next, canonical (format declarations) = .ok next ∧
          format declarations = "(" ++ next ++ ")") ∧
      ∃ pairs text, (∀ n, passes n (format declarations) = .ok (enclosed (pairs - n) text)) ∧
        ∀ n resolver revocable, pairs ≤ n →
          (passes n (format declarations)).map (uid · resolver revocable) =
            .ok (uid text resolver revocable) := by
  have hl := (parseList_sound h).legible
  obtain ⟨k, inner, rfl, hi⟩ := exists_nest declarations
  have hf : format (nest k inner) = String.ofList (joined (nest (k - 1) inner)) := by
    rw [format, render_eq_joined hl, unwrapped_nest hi]
  have hp : ∀ n, passes n (format (nest k inner)) =
      .ok (enclosed (k - 1 - n) (String.ofList (joined inner))) := by
    intro n
    have hu := legible_unwrapped hl
    rw [unwrapped_nest hi] at hu
    rw [hf, passes_nest hi hu, ofList_joined_nest]
  refine ⟨fun hn n => ?_, fun fields hd => ?_, k - 1, String.ofList (joined inner), hp, ?_⟩
  · have hk : k - 1 = 0 := by
      by_contra hk
      obtain ⟨j, rfl⟩ : ∃ j, k = j + 2 := ⟨k - 2, by omega⟩
      exact hn (nest j inner) rfl
    rw [hp, hf, hk, Nat.zero_sub]
    rfl
  · rw [hd] at hl ⊢
    have hj : format [unnamed (.tuple [unnamed (.tuple fields)])] =
        String.ofList (joined [unnamed (.tuple fields)]) := by
      rw [format, render_eq_joined hl, unwrapped_lone]
    refine ⟨String.ofList (joined fields), ?_, ?_⟩
    · rw [hj, canonical_joined hl.1.2.2.2, unwrapped_lone]
    · rw [hj]
      exact ofList_joined_nest 1 fields
  · intro n resolver revocable hn
    rw [hp, Nat.sub_eq_zero_of_le hn]
    rfl

/-- A lone tuple is settled at once, and one that holds only a tuple after one more pass. -/
theorem passes_format_lone :
    parse "(bool a)" = .ok [unnamed (.tuple [⟨"a", .bool⟩])] ∧
      (∀ n, passes n (format [unnamed (.tuple [⟨"a", .bool⟩])]) =
        .ok (format [unnamed (.tuple [⟨"a", .bool⟩])])) ∧
      parse "((bool a))" = .ok [unnamed (.tuple [unnamed (.tuple [⟨"a", .bool⟩])])] ∧
      canonical (format [unnamed (.tuple [unnamed (.tuple [⟨"a", .bool⟩])])]) = .ok "bool a" ∧
      ∃ pairs text, ∀ n, passes n (format [unnamed (.tuple [unnamed (.tuple [⟨"a", .bool⟩])])]) =
        .ok (enclosed (pairs - n) text) := by
  have hp : parse "(bool a)" = .ok [unnamed (.tuple [⟨"a", .bool⟩])] :=
    parse_of_joined (by decide) (by decide)
  have hq : parse "((bool a))" = .ok [unnamed (.tuple [unnamed (.tuple [⟨"a", .bool⟩])])] :=
    parse_of_joined (by decide) (by decide)
  obtain ⟨-, hn, pairs, text, ht, -⟩ := passes_format hq
  obtain ⟨next, hc, he⟩ := hn [⟨"a", .bool⟩] rfl
  have hb : next = "bool a" := by
    have hf : format [unnamed (.tuple [unnamed (.tuple [⟨"a", .bool⟩])])] = "(" ++ "bool a" ++ ")" := by
      decide
    rw [hf] at he
    have hl := congrArg String.toList he.symm
    simp only [String.toList_append] at hl
    exact String.toList_inj.1 (List.append_cancel_left (List.append_cancel_right hl))
  exact ⟨hp, (passes_format hp).1 (by simp [unnamed]), hq, hb ▸ hc, pairs, text, ht⟩

theorem not_canonical_canonical :
    canonical "((bool a))" = .ok "(bool a)" ∧ canonical "(bool a)" = .ok "bool a" := by
  constructor
  · have hl : AllLegible [unnamed (.tuple [unnamed (.tuple [⟨"a", .bool⟩])])] := by decide
    exact canonical_of_joined hl (by decide) (by decide)
  · have hl : AllLegible [unnamed (.tuple [⟨"a", .bool⟩])] := by decide
    exact canonical_of_joined hl (by decide) (by decide)

end Passes

end Schema

end Attest
