import Attest.Proofs.Schema.RoundTrip
import Attest.Schema.Format

set_option autoImplicit false

/-!
# Writing a lone tuple without its parentheses

Whether the text of a single declaration stands in parentheses is read from the text, in which names
stand as they are. So a name may close the parenthesis of its tuple too early, or the name behind a
tuple may end in the parenthesis that closes the first one. Where the names of each tuple close the
parentheses that they open, a lone tuple is found and nothing else is taken for one.
-/
namespace Attest

open Text Schema

namespace Descriptor

mutual

/-- Whether the names in each tuple, one behind the other, close the parentheses that they open. -/
def Paired : Descriptor → Prop
  | .tuple fields => parentheses.Closed (Declaration.names fields) ∧ AllPaired fields
  | .fixedArray _ element | .array element => element.Paired
  | _ => True

/-- The same of the types of declarations. Their own names may be any. -/
def AllPaired : List Declaration → Prop
  | [] => True
  | ⟨_, type⟩ :: fields => type.Paired ∧ AllPaired fields

end

end Descriptor

open Declaration Descriptor

namespace Schema

section Scan

variable {declarations : List Declaration}

theorem parentheses_ignores_decimal (n : Nat) : ∀ c ∈ decimal n, parentheses.Ignores c :=
  fun _ hc => parentheses_ignores_plain (isPlain_of_isDigit (isDigit_of_mem_decimal hc))

theorem parentheses_ignores_suffix (n : Nat) :
    ∀ c ∈ '[' :: decimal n ++ [']'], parentheses.Ignores c := by
  simp only [List.mem_append, List.mem_cons, List.not_mem_nil, or_false]
  rintro c ((rfl | hc) | rfl)
  · exact ⟨rfl, rfl, rfl⟩
  · exact parentheses_ignores_decimal n c hc
  · exact ⟨rfl, rfl, rfl⟩

theorem parentheses_ignores_suffixes (type : Descriptor) :
    ∀ c ∈ type.suffixes, parentheses.Ignores c := by
  cases type with
  | fixedArray size element =>
    rw [suffixes, List.append_assoc]
    exact List.forall_mem_append.2
      ⟨parentheses_ignores_suffixes element, parentheses_ignores_suffix size⟩
  | array element =>
    have hs : ∀ c ∈ ['[', ']'], parentheses.Ignores c := by simp [Scanner.Ignores, parentheses]
    exact List.forall_mem_append.2 ⟨parentheses_ignores_suffixes element, hs⟩
  | _ => exact fun _ hc => absurd hc List.not_mem_nil

theorem run_ending (d : Declaration) (depth : Nat) :
    parentheses.run depth d.ending = parentheses.run depth d.name.toList := by
  unfold ending
  split
  · rename_i hn
    rw [hn]
  · rfl

/-- A scan of declarations whose types have closed texts reads the names alone. -/
theorem run_joined (h : ∀ d ∈ declarations, parentheses.Closed d.item.render) (depth : Nat) :
    parentheses.run depth (joined declarations) = parentheses.run depth (names declarations) := by
  have hr : ∀ d ∈ declarations, ∀ depth,
      parentheses.run depth d.render = parentheses.run depth d.name.toList := by
    intro d hd depth
    rw [Declaration.render_eq, Scanner.run_append_of ((h d hd).run depth), run_ending]
  cases declarations with
  | nil => rfl
  | cons d others =>
    rw [List.forall_mem_cons] at hr
    rw [joined_cons, names, List.flatMap_def, List.map_cons]
    refine run_intercalate ⟨rfl, rfl, rfl⟩ (.cons hr.1 ?_) depth
    rw [List.forall₂_map_left_iff, List.forall₂_map_right_iff, List.forall₂_same]
    -- The blank behind the comma makes no difference.
    exact hr.2

mutual

theorem closed_render (type : Descriptor) (h : type.Paired) : parentheses.Closed type.render := by
  match type with
  | .tuple fields =>
    -- The texts of the fields' types are closed, so within the parentheses the names alone count.
    have hj := run_joined (closed_render_all fields h.2) 1
    rw [h.1.run 1] at hj
    rw [render_tuple]
    exact .enclose rfl ⟨rfl, rfl⟩ hj
  | .fixedArray size element =>
    rw [render_fixedArray, List.append_assoc]
    exact (closed_render element h).append (.of_ignores (parentheses_ignores_suffix size))
  | .array element =>
    have hs : parentheses.Closed ['[', ']'] := rfl
    exact (closed_render element h).append hs
  | .fixedBytes size =>
    have hb : parentheses.Closed "bytes".toList := rfl
    exact hb.append (.of_ignores (parentheses_ignores_decimal size))
  | .uint width =>
    have hu : parentheses.Closed "uint".toList := rfl
    exact hu.append (.of_ignores (parentheses_ignores_decimal width.bits))
  | .address | .bool | .string | .bytes | .uint256 => rfl

theorem closed_render_all (declarations : List Declaration) (h : AllPaired declarations) :
    ∀ d ∈ declarations, parentheses.Closed d.item.render := by
  match declarations with
  | [] => exact nofun
  | ⟨name, type⟩ :: others =>
    exact List.forall_mem_cons.2 ⟨closed_render type h.1, closed_render_all others h.2⟩

end

theorem paired_of_mem {d : Declaration} (h : AllPaired declarations) (hd : d ∈ declarations) :
    d.item.Paired := by
  induction declarations with
  | nil => cases hd
  | cons e others ih =>
    rcases List.mem_cons.1 hd with rfl | hd
    · exact h.1
    · exact ih h.2 hd

theorem closed_joined_of_core {type : Descriptor} {fields : List Declaration} (h : type.Paired)
    (hc : type.core = .tuple fields) : parentheses.Closed (joined fields) := by
  cases type with
  | tuple members =>
    cases hc
    rw [Scanner.Closed, run_joined (closed_render_all fields h.2)]
    exact h.1
  | fixedArray size element =>
    have he : element.Paired := h
    exact closed_joined_of_core he hc
  | array element =>
    have he : element.Paired := h
    exact closed_joined_of_core he hc
  | _ => cases hc

end Scan

section Enclosed

variable {text inner rest : List Char}

theorem enclosed?_eq_some_iff : enclosed? text = some inner ↔
    text = '(' :: inner ++ [')'] ∧ parentheses.Closed inner := by
  constructor
  · intro h
    unfold enclosed? at h
    split at h
    · split at h
      · rename_i hc
        cases h
        obtain ⟨rfl, hi⟩ := closing?_eq_some_iff.1 hc
        exact ⟨rfl, hi⟩
      · cases h
    · cases h
  · rintro ⟨rfl, hi⟩
    have hc : closing? 0 (inner ++ [')']) = some (inner, []) := closing?_eq_some_iff.2 ⟨rfl, hi⟩
    rw [List.cons_append, enclosed?, hc]

/-- A group and what stands behind it are in parentheses, if nothing does, or if its last character
    closes the first one. -/
theorem enclosed?_group_iff {group : List Char} :
    enclosed? ('(' :: group ++ ')' :: rest) = some inner ↔
      (rest = [] ∧ inner = group ∧ parentheses.Closed group) ∨
      ∃ before, rest = before ++ [')'] ∧ inner = group ++ ')' :: before ∧
        parentheses.Closed (group ++ ')' :: before) := by
  rw [enclosed?_eq_some_iff]
  constructor
  · rintro ⟨he, hi⟩
    rcases List.eq_nil_or_concat' rest with rfl | ⟨before, last, rfl⟩
    · obtain rfl := List.append_inj_left' (List.cons.inj he).2 rfl
      exact .inl ⟨rfl, rfl, hi⟩
    · have hg : '(' :: group ++ ')' :: (before ++ [last]) =
          '(' :: (group ++ ')' :: before) ++ [last] := by simp
      rw [hg] at he
      obtain ⟨rfl, hl⟩ := List.append_inj' (List.cons.inj he).2 rfl
      exact .inr ⟨before, by rw [hl], rfl, hi⟩
  · rintro (⟨rfl, rfl, hi⟩ | ⟨before, rfl, rfl, hi⟩)
    · exact ⟨rfl, hi⟩
    · exact ⟨by simp, hi⟩

theorem getD_enclosed? (text : List Char) : (enclosed? text).getD text = text ∨
    '(' :: (enclosed? text).getD text ++ [')'] = text := by
  cases he : enclosed? text with
  | none => exact .inl rfl
  | some inner => exact .inr (enclosed?_eq_some_iff.1 he).1.symm

end Enclosed

end Schema

namespace Declaration

variable {d : Declaration} {fields : List Declaration} {before : List Char}

theorem unnamed_eq_iff {type : Descriptor} : d = unnamed type ↔ d.item = type ∧ d.ending = [] := by
  obtain ⟨name, item⟩ := d
  simp [unnamed, ending, and_comm]

theorem eq_unnamed_iff (hc : d.item.core = .tuple fields) :
    d = unnamed (.tuple fields) ↔ d.item.suffixes ++ d.ending = [] := by
  rw [unnamed_eq_iff, List.append_eq_nil_iff]
  refine and_congr_left fun _ => ⟨fun hi => by rw [hi]; rfl, fun hs => ?_⟩
  exact (eq_core_of_suffixes_nil hs).symm.trans hc

/-- Behind a group, only a name ends in a parenthesis. -/
theorem suffixes_append_ending_iff : d.item.suffixes ++ d.ending = before ++ [')'] ↔
    ∃ front, d.name.toList = front ++ [')'] ∧ before = d.item.suffixes ++ ' ' :: front := by
  constructor
  · intro h
    rcases List.eq_nil_or_concat' d.name.toList with hn | ⟨front, last, hn⟩
    · rw [ending, if_pos hn, List.append_nil] at h
      have hp := parentheses_ignores_suffixes d.item ')' (h ▸ by simp)
      cases hp.2.1
    · have he : d.item.suffixes ++ d.ending = (d.item.suffixes ++ ' ' :: front) ++ [last] := by
        simp [ending, hn]
      obtain ⟨hb, hl⟩ := List.append_inj' (he.symm.trans h) rfl
      exact ⟨front, by rw [hn, hl], hb.symm⟩
  · rintro ⟨front, hn, rfl⟩
    simp [ending, hn]

theorem closed_group_iff (type : Descriptor) {front : List Char} :
    parentheses.Closed (joined fields ++ ')' :: (type.suffixes ++ ' ' :: front)) ↔
      parentheses.Closed (joined fields ++ ')' :: front) := by
  have hs : ∀ depth, parentheses.run depth (type.suffixes ++ ' ' :: front) =
      parentheses.run depth front := by
    intro depth
    rw [Scanner.run_append_of (Scanner.run_of_ignores (parentheses_ignores_suffixes type) depth)]
    rfl
  simp only [Scanner.Closed, Scanner.run_append, Scanner.run_cons, hs]

/-- Whether the last character of a declaration's name closes the parenthesis that the text of the
    declaration begins with. -/
def ClosedByName (d : Declaration) : Prop :=
  ∃ fields front, d.item.core = .tuple fields ∧ d.name.toList = front ++ [')'] ∧
    parentheses.Closed (joined fields ++ ')' :: front)

theorem not_closedByName (h : ∀ fields, d.item.core = .tuple fields →
    parentheses.Closed (joined fields)) : ¬ d.ClosedByName := by
  rintro ⟨fields, front, hc, -, hx⟩
  have hr := (h fields hc).append_iff.1 hx
  cases hr

/-- There are two ways for the text of a declaration to stand in parentheses. -/
theorem exists_enclosed?_render_iff : (∃ inner, enclosed? d.render = some inner) ↔
    (∃ fields, d = unnamed (.tuple fields) ∧ parentheses.Closed (joined fields)) ∨
      d.ClosedByName := by
  constructor
  · rintro ⟨inner, he⟩
    by_cases hc : ∃ fields, d.item.core = .tuple fields
    · obtain ⟨fields, hc⟩ := hc
      rw [render_group hc, enclosed?_group_iff] at he
      rcases he with ⟨hn, -, hi⟩ | ⟨before, hb, -, hi⟩
      · exact .inl ⟨fields, (eq_unnamed_iff hc).2 hn, hi⟩
      · obtain ⟨front, hn, rfl⟩ := suffixes_append_ending_iff.1 hb
        exact .inr ⟨fields, front, hc, hn, (closed_group_iff d.item).1 hi⟩
    · have hh := head?_render fun fields hf => hc ⟨fields, hf⟩
      rw [(enclosed?_eq_some_iff.1 he).1] at hh
      exact absurd rfl hh
  · rintro (⟨fields, rfl, hi⟩ | ⟨fields, front, hc, hn, hi⟩)
    · have hc : (unnamed (.tuple fields)).item.core = .tuple fields := rfl
      rw [render_group hc]
      exact ⟨_, enclosed?_group_iff.2 (.inl ⟨(eq_unnamed_iff hc).1 rfl, rfl, hi⟩)⟩
    · have hb := suffixes_append_ending_iff.2 ⟨front, hn, rfl⟩
      rw [render_group hc]
      exact ⟨_, enclosed?_group_iff.2 (.inr ⟨_, hb, rfl, (closed_group_iff d.item).2 hi⟩)⟩

end Declaration

namespace Schema

variable {d : Declaration} {declarations fields : List Declaration}

theorem joined_singleton (d : Declaration) : joined [d] = d.render := List.intercalate_singleton

theorem joined_lone (fields : List Declaration) :
    joined [unnamed (.tuple fields)] = '(' :: joined fields ++ [')'] := by
  rw [← render_tuple]
  exact List.intercalate_singleton

theorem render_singleton (d : Declaration) :
    render [d] = (enclosed? (joined [d])).getD (joined [d]) := rfl

theorem render_of_length_ne (h : declarations.length ≠ 1) :
    render declarations = joined declarations := if_neg h

theorem render_eq_or (declarations : List Declaration) :
    render declarations = joined declarations ∨
      '(' :: render declarations ++ [')'] = joined declarations := by
  by_cases h : declarations.length = 1
  · obtain ⟨d, rfl⟩ := List.length_eq_one_iff.1 h
    exact getD_enclosed? _
  · exact .inl (render_of_length_ne h)

theorem render_singleton_eq_iff :
    render [d] = joined [d] ↔ ∀ inner, enclosed? d.render ≠ some inner := by
  rw [render_singleton, joined_singleton]
  cases he : enclosed? d.render with
  | none => simp
  | some inner =>
    have ht := (enclosed?_eq_some_iff.1 he).1
    refine ⟨fun hr => ?_, fun hn => absurd rfl (hn inner)⟩
    have hl := congrArg List.length (hr.trans ht)
    simp at hl
    omega

theorem render_lone_iff : render [unnamed (.tuple fields)] = joined fields ↔
    parentheses.Closed (joined fields) := by
  rw [render_singleton, joined_lone]
  cases he : enclosed? ('(' :: joined fields ++ [')']) with
  | none =>
    refine ⟨fun hr => ?_, fun hc => ?_⟩
    · have hl := congrArg List.length hr
      simp at hl
      omega
    · rw [enclosed?_eq_some_iff.2 ⟨rfl, hc⟩] at he
      cases he
  | some inner =>
    obtain ⟨ht, hi⟩ := enclosed?_eq_some_iff.1 he
    obtain rfl : joined fields = inner := List.append_inj_left' (List.cons.inj ht).2 rfl
    exact ⟨fun _ => hi, fun _ => rfl⟩

theorem render_eq_joined_iff (hn : ∀ fields, declarations ≠ [unnamed (.tuple fields)]) :
    render declarations = joined declarations ↔ ∀ d, declarations = [d] → ¬ d.ClosedByName := by
  by_cases h : declarations.length = 1
  · obtain ⟨d, rfl⟩ := List.length_eq_one_iff.1 h
    rw [render_singleton_eq_iff, ← not_exists, exists_enclosed?_render_iff, not_or]
    constructor
    · rintro ⟨-, hx⟩ _ ⟨⟩
      exact hx
    · intro hx
      exact ⟨fun ⟨fields, hd, _⟩ => hn fields (congrArg (fun d => [d]) hd), hx d rfl⟩
  · refine ⟨fun _ d hd => ?_, fun _ => render_of_length_ne h⟩
    rw [hd] at h
    exact absurd rfl h

theorem render_of_closed (h : ∀ d ∈ declarations, ∀ fields, d.item.core = .tuple fields →
      parentheses.Closed (joined fields)) :
    (∀ fields, declarations = [unnamed (.tuple fields)] → render declarations = joined fields) ∧
      ((∀ fields, declarations ≠ [unnamed (.tuple fields)]) →
        render declarations = joined declarations) := by
  constructor
  · rintro fields rfl
    exact render_lone_iff.2 (h _ (List.mem_singleton_self _) fields rfl)
  · intro hn
    refine (render_eq_joined_iff hn).2 ?_
    rintro d rfl
    exact not_closedByName (h d (List.mem_singleton_self d))

/-- Where the names of each tuple close the parentheses that they open, a lone tuple is written as its
    fields, and all other declarations are written as they are. Other names may keep a lone tuple in
    its parentheses, or take the outermost pair from a declaration that is no lone tuple; nothing
    else is changed. -/
theorem format_unwraps (declarations : List Declaration) :
    (AllPaired declarations →
      (∀ fields, declarations = [unnamed (.tuple fields)] →
        format declarations = String.ofList (joined fields)) ∧
      ((∀ fields, declarations ≠ [unnamed (.tuple fields)]) →
        format declarations = String.ofList (joined declarations))) ∧
    (∀ fields, declarations = [unnamed (.tuple fields)] →
      (format declarations = String.ofList (joined fields) ↔
        parentheses.Closed (joined fields))) ∧
    ((∀ fields, declarations ≠ [unnamed (.tuple fields)]) →
      (format declarations = String.ofList (joined declarations) ↔
        ∀ d, declarations = [d] → ¬ d.ClosedByName)) ∧
    (format declarations = String.ofList (joined declarations) ∨
      "(" ++ format declarations ++ ")" = String.ofList (joined declarations)) := by
  have hf : ∀ text, format declarations = String.ofList text ↔ render declarations = text :=
    fun text => String.ofList_inj
  simp only [hf]
  refine ⟨fun h => render_of_closed fun d hd fields => ?_, ?_, render_eq_joined_iff, ?_⟩
  · exact closed_joined_of_core (paired_of_mem h hd)
  · rintro fields rfl
    exact render_lone_iff
  · refine (render_eq_or declarations).imp_right fun hr => ?_
    rw [← hr, format]
    apply String.toList_inj.1
    simp

theorem format_unwraps_names :
    AllPaired [unnamed (.tuple [⟨"f(", .bool⟩, ⟨")", .array (.tuple [⟨"x", .string⟩])⟩])] ∧
      format [unnamed (.tuple [⟨"f(", .bool⟩, ⟨")", .array (.tuple [⟨"x", .string⟩])⟩])] =
        "bool f(, (string x)[] )" := by
  have hp : AllPaired [unnamed (.tuple [⟨"f(", .bool⟩, ⟨")", .array (.tuple [⟨"x", .string⟩])⟩])] :=
    ⟨⟨rfl, trivial, ⟨rfl, trivial, trivial⟩, trivial⟩, trivial⟩
  exact ⟨hp, ((format_unwraps _).1 hp).1 _ rfl⟩

/-- A lone tuple that stays in its parentheses, and a tuple with a name that loses the first one. -/
theorem not_format_joined :
    format [unnamed (.tuple [⟨"a)", .uint .w8⟩, ⟨"(b", .uint .w16⟩])] = "(uint8 a), uint16 (b)" ∧
      String.ofList (joined [⟨"a)", .uint .w8⟩, ⟨"(b", .uint .w16⟩]) = "uint8 a), uint16 (b" ∧
    format [⟨"b)", .tuple [⟨"a(", .bool⟩]⟩] = "bool a() b" ∧
      String.ofList (joined [⟨"b)", .tuple [⟨"a(", .bool⟩]⟩]) = "(bool a() b)" := by
  decide

end Schema

end Attest
