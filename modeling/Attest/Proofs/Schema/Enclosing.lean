import Attest.Proofs.Schema.Pieces

set_option autoImplicit false

/-!
# Parentheses around a schema

The scanner that splits a text counts brackets of both kinds together, and the scanner that looks for
the end of a group counts parentheses alone. They agree on all of an accepted text but the names: in
a name a parenthesis may be closed by a square bracket. So a schema in parentheses is one tuple
exactly if the names of its declarations close the parentheses that they open.
-/
namespace Attest

open Text

namespace Schema

namespace Scanner

/-- The scanner that nothing cuts, but for a bracket that closes before it opens. -/
def uncut (s : Scanner) : Scanner := { s with cuts := fun _ => false }

variable {s : Scanner} {depth next : Nat} {c : Char} {text inner rest : List Char}

theorem Ignores.uncut (h : s.Ignores c) : s.uncut.Ignores c := ⟨h.1, h.2.1, rfl⟩

theorem step_uncut (h : s.step depth c = some next) : s.uncut.step depth c = some next := by
  unfold step at h ⊢
  rw [show s.uncut.opens = s.opens from rfl, show s.uncut.closes = s.closes from rfl,
    show s.uncut.cuts c = false from rfl]
  cases ho : s.opens c <;> cases hl : s.closes c <;> simp_all

theorem run_uncut (h : s.run depth text = some next) : s.uncut.run depth text = some next := by
  induction text generalizing depth with
  | nil => exact h
  | cons c text ih =>
    rw [run_cons, Option.bind_eq_some_iff] at h
    obtain ⟨between, hs, hr⟩ := h
    rw [run_cons, step_uncut hs, Option.bind_some, ih hr]

end Scanner

variable {text inner rest : List Char} {declarations : List Declaration} {schema : String}

theorem uncut_closed_of_blank (h : trim text = []) : brackets.uncut.Closed text := by
  rw [Scanner.Closed, ← Scanner.run_ink fun _ hb => (brackets_ignores_blank hb).uncut,
    trim_eq_nil_iff.1 h]
  rfl

theorem uncut_closed_of_split {ps : List (List Char)} (h : split text = .ok ps) :
    brackets.uncut.Closed text := by
  obtain ⟨-, hc, rfl⟩ := split_eq_ok_iff.1 h
  have hr : List.Forall₂
      (fun p n => ∀ depth, brackets.uncut.run depth p = brackets.uncut.run depth n) ps
      (ps.map fun _ => []) := by
    rw [List.forall₂_map_right_iff, List.forall₂_same]
    exact fun p hp depth => Scanner.run_uncut ((hc p hp).run depth)
  rw [Scanner.Closed, run_intercalate ⟨rfl, rfl, rfl⟩ hr, List.flatten_eq_nil_iff.2 (by simp)]
  rfl

theorem uncut_closed_of_parseList (h : parseList text = .ok declarations) :
    brackets.uncut.Closed text := by
  rw [parseList_eq] at h
  split at h
  · rename_i ht
    exact uncut_closed_of_blank ht
  · split at h
    · cases h
    · rename_i ps hs
      exact uncut_closed_of_split hs

/-- What stands before a closing bracket within an accepted text is not accepted. -/
theorem parseList_before_closing (h : brackets.uncut.Closed (inner ++ ')' :: rest)) :
    ∃ fault, parseList inner = .error (.malformedSchema fault) := by
  have hn : ¬ brackets.uncut.Closed inner := by
    intro hc
    have hr := hc.append_iff.1 h
    cases hr
  have ht : trim inner ≠ [] := fun ht => hn (uncut_closed_of_blank ht)
  rw [parseList_eq, if_neg ht]
  cases hs : split inner with
  | error fault => exact ⟨fault, rfl⟩
  | ok ps => exact absurd (uncut_closed_of_split hs) hn

theorem ne_nil_of_parseList (h : parseList text = .ok declarations) (hn : trim text ≠ []) :
    declarations ≠ [] := by
  obtain ⟨ps, hs, hf⟩ := exists_split_of_parseList h hn
  rintro rfl
  exact (split_eq_ok_iff.1 hs).1 (List.forall₂_nil_right_iff.1 hf)

theorem trim_enclosed (text : List Char) : trim ('(' :: text ++ [')']) = '(' :: text ++ [')'] := by
  refine trim_eq_self (fun c hc => ?_) fun c hc => ?_
  · cases hc
    rfl
  · rw [List.getLast?_concat] at hc
    cases hc
    rfl

theorem trim_enclosed_ne_nil (text : List Char) : trim ('(' :: text ++ [')']) ≠ [] := by
  rw [trim_enclosed]
  exact List.cons_ne_nil _ _

theorem parseList_enclosed (h : brackets.run 1 text = some 1) :
    parseList ('(' :: text ++ [')']) =
      (declaration ('(' :: text ++ [')'])).map fun d => [d] :=
  parseList_of_closed (.enclose rfl ⟨rfl, rfl⟩ h) (trim_enclosed_ne_nil text)

theorem declaration_enclosed (h : parseList text = .ok declarations) (hn : declarations ≠ [])
    (hc : parentheses.Closed text) :
    declaration ('(' :: text ++ [')']) = .ok (Declaration.unnamed (.tuple declarations)) := by
  have ht : TextOf ('(' :: text ++ [')']) (Declaration.unnamed (.tuple declarations)).item :=
    .group h hn hc (.nil _)
  have he : (Declaration.unnamed (.tuple declarations)).ending = [] := rfl
  have hd := ht.declaration (accepts_nil _)
  rwa [he, List.append_nil] at hd

/-- Where the end of the group is not found at the end of the text, it is found within a name, or not
    at all. -/
theorem declaration_enclosed_of_not_closed (h : parseList text = .ok declarations)
    (hc : ¬ parentheses.Closed text) :
    ∃ fault, declaration ('(' :: text ++ [')']) = .error (.malformedSchema fault) := by
  rw [declaration_eq (trim_enclosed_ne_nil text), trim_enclosed]
  cases hq : closing? 0 (text ++ [')']) with
  | none =>
    have hf : form ('(' :: text ++ [')']) = .error (.malformedSchema
        (.unbalancedParentheses (String.ofList ('(' :: text ++ [')'])))) := by
      rw [List.cons_append, form, hq]
    rw [hf]
    exact ⟨_, rfl⟩
  | some found =>
    obtain ⟨inner, rest⟩ := found
    obtain ⟨he, hi⟩ := closing?_eq_some_iff.1 hq
    have hr : rest ≠ [] := by
      rintro rfl
      exact hc ((List.append_inj_left' he rfl) ▸ hi)
    have hd : text = inner ++ ')' :: rest.dropLast := by
      have hl := congrArg List.dropLast he
      rwa [List.dropLast_concat, List.dropLast_append_cons, List.dropLast_cons_of_ne_nil hr] at hl
    have hf : form ('(' :: text ++ [')']) = .ok (.group inner rest) :=
      form_group_iff.2 ⟨congrArg ('(' :: ·) he, hi⟩
    obtain ⟨fault, hp⟩ := parseList_before_closing (hd ▸ uncut_closed_of_parseList h)
    rw [hf]
    simp only [bind, Except.bind, hp]
    exact ⟨fault, rfl⟩

/-- An accepted schema in parentheses is the tuple of its declarations exactly if their names, one
    behind the other, close the parentheses that they open. Otherwise it is refused. -/
theorem parse_enclosed (h : parse schema = .ok declarations) (hn : trim schema.toList ≠ []) :
    (parse ("(" ++ schema ++ ")") = .ok [Declaration.unnamed (.tuple declarations)] ↔
      parentheses.Closed (Declaration.names declarations)) ∧
      (¬ parentheses.Closed (Declaration.names declarations) →
        ∃ fault, parse ("(" ++ schema ++ ")") = .error (.malformedSchema fault)) := by
  have hd := parseList_sound h
  have hc : parentheses.Closed schema.toList ↔
      parentheses.Closed (Declaration.names declarations) := by
    rw [Scanner.Closed, hd.run, Scanner.Closed]
  have hl : ("(" ++ schema ++ ")").toList = '(' :: schema.toList ++ [')'] := by simp
  rw [parse, hl, parseList_enclosed (hd.inside 0), ← hc]
  have hr : ¬ parentheses.Closed schema.toList → ∃ fault,
      (declaration ('(' :: schema.toList ++ [')'])).map (fun d => [d]) =
        .error (.malformedSchema fault) := by
    intro hx
    obtain ⟨fault, hf⟩ := declaration_enclosed_of_not_closed h hx
    exact ⟨fault, by rw [hf]; rfl⟩
  refine ⟨⟨fun hp => ?_, fun hx => ?_⟩, hr⟩
  · by_contra hx
    obtain ⟨fault, hf⟩ := hr hx
    rw [hf] at hp
    cases hp
  · rw [declaration_enclosed h (ne_nil_of_parseList h hn) hx]
    rfl

theorem parse_enclosed_names :
    parse "bool x(], bool [y)" = .ok [⟨"x(]", .bool⟩, ⟨"[y)", .bool⟩] ∧
      trim "bool x(], bool [y)".toList ≠ [] ∧
      parse ("(" ++ "bool x(], bool [y)" ++ ")") =
        .ok [Declaration.unnamed (.tuple [⟨"x(]", .bool⟩, ⟨"[y)", .bool⟩])] := by
  have hp : parse "bool x(], bool [y)" = .ok [⟨"x(]", .bool⟩, ⟨"[y)", .bool⟩] :=
    parse_of_joined (by decide) (by decide)
  have hn : trim "bool x(], bool [y)".toList ≠ [] := by decide
  exact ⟨hp, hn, (parse_enclosed hp hn).1.2 (by decide)⟩

/-- A field whose name leaves a parenthesis open is declared by a schema, and not within a tuple. -/
theorem not_parse_enclosed :
    parse "bool x(]" = .ok [⟨"x(]", .bool⟩] ∧ trim "bool x(]".toList ≠ [] ∧
      parse ("(" ++ "bool x(]" ++ ")") =
        .error (.malformedSchema (.unbalancedParentheses "(bool x(])")) := by
  refine ⟨parse_of_joined (by decide) (by decide), by decide, ?_⟩
  have hl : ("(" ++ "bool x(]" ++ ")").toList = '(' :: "bool x(]".toList ++ [')'] := rfl
  rw [parse, hl, parseList_enclosed rfl, declaration_eq (by decide)]
  rfl

end Schema

end Attest
