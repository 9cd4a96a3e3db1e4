import Attest.Proofs.Schema.Canonical

set_option autoImplicit false

namespace Attest.Schema

open Text

section Levels

variable {depth next : Nat} {text before after : List Char} {ps front back : List (List Char)}

/-- Whether as many brackets are closed in a text as are opened, those of both kinds together. -/
def Level (text : List Char) : Prop := text.countP isOpening = text.countP isClosing

/-- Whether texts are the pieces of a text: it is made of them with commas between, and these are
    all the commas of the text that have a level text in front. -/
structure Cut (text : List Char) (ps : List (List Char)) : Prop where
  ne_nil : ps ≠ []
  joined : [','].intercalate ps = text
  commas : ∀ before after, text = before ++ ',' :: after → (Level before ↔
    ∃ front back, front ≠ [] ∧ back ≠ [] ∧ ps = front ++ back ∧
      [','].intercalate front = before ∧ [','].intercalate back = after)

theorem countP_of_run (h : brackets.run depth text = some next) :
    depth + text.countP isOpening = next + text.countP isClosing := by
  induction text generalizing depth with
  | nil =>
    cases h
    rfl
  | cons c text ih =>
    rw [Scanner.run_cons, Option.bind_eq_some_iff] at h
    obtain ⟨between, hs, hr⟩ := h
    have ht := ih hr
    have hb : isOpening c = true → isClosing c = false := by
      intro ho
      rcases isOpening_iff.1 ho with rfl | rfl <;> rfl
    rw [brackets_step] at hs
    rw [List.countP_cons, List.countP_cons]
    unfold depthAfter at hs
    cases ho : isOpening c <;> cases hl : isClosing c <;> simp [ho, hl] at hs hb ⊢ <;> omega

theorem level_of_closed (h : brackets.Closed text) : Level text := by
  have hc := countP_of_run h
  unfold Level
  omega

theorem level_append_iff (h : Level before) : Level (before ++ after) ↔ Level after := by
  unfold Level at h ⊢
  rw [List.countP_append, List.countP_append]
  omega

/-- Within a piece, brackets are open at each comma. -/
theorem not_level_of_closed (h : brackets.Closed (before ++ ',' :: after)) : ¬ Level before := by
  rw [Scanner.Closed, Scanner.run_append, Option.bind_eq_some_iff] at h
  obtain ⟨depth, hb, ha⟩ := h
  have hc := countP_of_run hb
  cases depth with
  | zero => cases ha
  | succ depth =>
    unfold Level
    omega

theorem level_intercalate (h : ∀ p ∈ ps, brackets.Closed p) : Level ([','].intercalate ps) := by
  have hc := countP_of_run (brackets_run_intercalate h 0)
  unfold Level
  omega

theorem intercalate_append (hf : front ≠ []) (hb : back ≠ []) :
    [','].intercalate (front ++ back) =
      [','].intercalate front ++ ',' :: [','].intercalate back := by
  obtain ⟨p, front, rfl⟩ := List.exists_cons_of_ne_nil hf
  obtain ⟨q, back, rfl⟩ := List.exists_cons_of_ne_nil hb
  rw [List.cons_append, intercalate_cons, intercalate_cons, intercalate_cons, List.flatMap_append]
  simp

theorem append_comma_cases {p rest : List Char} (h : p ++ ',' :: rest = before ++ ',' :: after) :
    (p = before ∧ rest = after) ∨
      (∃ more, before = p ++ ',' :: more ∧ rest = more ++ ',' :: after) ∨
        ∃ more, p = before ++ ',' :: more := by
  rcases List.append_eq_append_iff.1 h with ⟨more, rfl, hr⟩ | ⟨more, rfl, hr⟩
  · cases more with
    | nil => exact .inl ⟨(List.append_nil p).symm, (List.cons.inj hr).2⟩
    | cons c more =>
      obtain ⟨rfl, ht⟩ := List.cons.inj hr
      exact .inr (.inl ⟨more, rfl, ht⟩)
  · cases more with
    | nil => exact .inl ⟨List.append_nil before, (List.cons.inj hr).2.symm⟩
    | cons c more =>
      obtain ⟨rfl, -⟩ := List.cons.inj hr
      exact .inr (.inr ⟨more, rfl⟩)

/-- A comma with a level text in front stands between two pieces. -/
theorem exists_pieces_around (hn : ps ≠ []) (hc : ∀ p ∈ ps, brackets.Closed p) (hl : Level before)
    (h : [','].intercalate ps = before ++ ',' :: after) :
    ∃ front back, front ≠ [] ∧ back ≠ [] ∧ ps = front ++ back ∧
      [','].intercalate front = before ∧ [','].intercalate back = after := by
  induction ps generalizing before with
  | nil => exact absurd rfl hn
  | cons p ps ih =>
    rw [List.forall_mem_cons] at hc
    obtain ⟨hp, hc⟩ := hc
    cases ps with
    | nil =>
      rw [List.intercalate_singleton] at h
      exact absurd hl (not_level_of_closed (h ▸ hp))
    | cons q ps =>
      rw [List.intercalate_cons_cons, List.append_assoc, List.singleton_append] at h
      -- The comma is the one behind the first piece, or behind that, or within the first piece.
      rcases append_comma_cases h with ⟨rfl, rfl⟩ | ⟨more, rfl, hr⟩ | ⟨more, rfl⟩
      · exact ⟨[p], q :: ps, List.cons_ne_nil p [], List.cons_ne_nil q ps, rfl,
          List.intercalate_singleton, rfl⟩
      · have hk : Level [','] := rfl
        have hm := (level_append_iff hk).1 ((level_append_iff (level_of_closed hp)).1 hl)
        obtain ⟨front, back, hf, hb, he, rfl, rfl⟩ := ih (List.cons_ne_nil q ps) hc hm hr
        have hj := intercalate_append (List.cons_ne_nil p []) hf
        rw [List.intercalate_singleton] at hj
        exact ⟨p :: front, back, List.cons_ne_nil p front, hb, congrArg (p :: ·) he, hj, rfl⟩
      · exact absurd hl (not_level_of_closed hp)

theorem cut_of_split (h : split text = .ok ps) : Cut text ps := by
  obtain ⟨hn, hc, hj⟩ := split_eq_ok_iff.1 h
  refine ⟨hn, hj, fun before after ht => ⟨fun hl => ?_, fun hp => ?_⟩⟩
  · exact exists_pieces_around hn hc hl (hj.trans ht)
  · obtain ⟨front, back, -, -, rfl, rfl, -⟩ := hp
    exact level_intercalate fun p hp => hc p (List.mem_append_left _ hp)

end Levels

section Reading

variable {text x y : List Char} {d : Declaration} {ds es : List Declaration}
  {ps qs : List (List Char)}

theorem split_append (hx : split x = .ok ps) (hy : split y = .ok qs) :
    split (x ++ ',' :: y) = .ok (ps ++ qs) := by
  obtain ⟨hp, hcp, rfl⟩ := split_eq_ok_iff.1 hx
  obtain ⟨hq, hcq, rfl⟩ := split_eq_ok_iff.1 hy
  refine split_eq_ok_iff.2 ⟨List.append_ne_nil_of_left_ne_nil hp qs, ?_, intercalate_append hp hq⟩
  exact List.forall_mem_append.2 ⟨hcp, hcq⟩

theorem parseList_of_closed (hc : brackets.Closed text) (hn : trim text ≠ []) :
    parseList text = (declaration text).map fun d => [d] := by
  have hs : split text = .ok [text] := split_eq_ok_iff.2
    ⟨List.cons_ne_nil text [], List.forall_mem_singleton.2 hc, List.intercalate_singleton⟩
  rw [parseList_eq, if_neg hn, hs]
  exact Result.mapM_singleton declaration text

theorem parseList_eq_singleton_iff (hc : brackets.Closed text) :
    parseList text = .ok [d] ↔ declaration text = .ok d := by
  by_cases hn : trim text = []
  · rw [parseList_eq, if_pos hn, declaration_of_trim_nil hn]
    simp
  · rw [parseList_of_closed hc hn, Result.map_eq_ok]
    simp

theorem forall₂_declaration_iff (hc : ∀ p ∈ ps, brackets.Closed p) :
    List.Forall₂ (fun p d => declaration p = .ok d) ps ds ↔
      List.Forall₂ (fun p d => parseList p = .ok [d]) ps ds := by
  constructor
  · intro h
    exact ((List.forall₂_and_left _ _).2 ⟨hc, h⟩).imp fun _ _ hp =>
      (parseList_eq_singleton_iff hp.1).2 hp.2
  · intro h
    exact ((List.forall₂_and_left _ _).2 ⟨hc, h⟩).imp fun _ _ hp =>
      (parseList_eq_singleton_iff hp.1).1 hp.2

theorem parseList_eq_ok_iff : parseList text = .ok ds ↔ (trim text = [] ∧ ds = []) ∨
    ∃ ps, split text = .ok ps ∧ List.Forall₂ (fun p d => parseList p = .ok [d]) ps ds := by
  constructor
  · intro h
    rw [parseList_eq] at h
    split at h
    · rename_i ht
      cases h
      exact .inl ⟨ht, rfl⟩
    · split at h
      · cases h
      · rename_i ps hs
        have hc := (split_eq_ok_iff.1 hs).2.1
        exact .inr ⟨ps, hs, (forall₂_declaration_iff hc).1 (Result.mapM_eq_ok.1 h)⟩
  · rintro (⟨ht, rfl⟩ | ⟨ps, hs, hf⟩)
    · rw [parseList_eq, if_pos ht]
    · obtain ⟨hn, hc, hj⟩ := split_eq_ok_iff.1 hs
      have hd := (forall₂_declaration_iff hc).2 hf
      have ht : trim text ≠ [] := by
        rw [← hj]
        cases hd with
        | nil => exact absurd rfl hn
        | cons hp _ => exact trim_intercalate_ne_nil (trim_ne_nil_of_declaration hp) _
      rw [parseList_eq, if_neg ht, hs]
      exact Result.mapM_eq_ok.2 hd

theorem exists_split_of_parseList (h : parseList text = .ok ds) (hn : trim text ≠ []) :
    ∃ ps, split text = .ok ps ∧ List.Forall₂ (fun p d => parseList p = .ok [d]) ps ds := by
  rcases parseList_eq_ok_iff.1 h with ⟨ht, -⟩ | hs
  · exact absurd ht hn
  · exact hs

/-- A text that declares a single field is a single piece. -/
theorem closed_of_parseList_singleton (h : parseList text = .ok [d]) : brackets.Closed text := by
  rcases parseList_eq_ok_iff.1 h with ⟨-, hd⟩ | ⟨ps, hs, hf⟩
  · cases hd
  · obtain ⟨-, hc, hj⟩ := split_eq_ok_iff.1 hs
    obtain ⟨p, _, -, ht, rfl⟩ := List.forall₂_cons_right_iff.1 hf
    rw [List.forall₂_nil_right_iff.1 ht, List.intercalate_singleton] at hj
    exact hj ▸ hc p (List.mem_cons_self ..)

theorem parseList_append (hx : parseList x = .ok ds) (hy : parseList y = .ok es)
    (hn : trim x ≠ []) (hm : trim y ≠ []) : parseList (x ++ ',' :: y) = .ok (ds ++ es) := by
  obtain ⟨ps, hp, hd⟩ := exists_split_of_parseList hx hn
  obtain ⟨qs, hq, he⟩ := exists_split_of_parseList hy hm
  exact parseList_eq_ok_iff.2 (.inr ⟨ps ++ qs, split_append hp hq, List.rel_append hd he⟩)

theorem split_of_cut (hk : Cut text ps)
    (hf : List.Forall₂ (fun p d => parseList p = .ok [d]) ps ds) : split text = .ok ps := by
  have hc := hf.imp fun _ _ h => And.intro (closed_of_parseList_singleton h) h
  exact split_eq_ok_iff.2 ⟨hk.ne_nil, ((List.forall₂_and_left _ _).1 hc).1, hk.joined⟩

/-- Schemas that are not blank are joined by a comma to the schema of the declarations of both. A
    schema declares what its pieces declare, each of them a single field. -/
theorem parse_pieces :
    (∀ (s t : String) (ds es : List Declaration), trim s.toList ≠ [] → trim t.toList ≠ [] →
      parse s = .ok ds → parse t = .ok es → parse (s ++ "," ++ t) = .ok (ds ++ es)) ∧
      ∀ (s : String) (ds : List Declaration), parse s = .ok ds ↔
        (trim s.toList = [] ∧ ds = []) ∨ ∃ ps, Cut s.toList ps ∧
          List.Forall₂ (fun p d => parse (String.ofList p) = .ok [d]) ps ds := by
  constructor
  · intro s t ds es hs ht hd he
    have hl : (s ++ "," ++ t).toList = s.toList ++ ',' :: t.toList := by simp
    rw [parse, hl]
    exact parseList_append hd he hs ht
  · intro s ds
    simp only [parse, String.toList_ofList]
    rw [parseList_eq_ok_iff]
    constructor
    · rintro (hb | ⟨ps, hs, hf⟩)
      · exact .inl hb
      · exact .inr ⟨ps, cut_of_split hs, hf⟩
    · rintro (hb | ⟨ps, hk, hf⟩)
      · exact .inl hb
      · exact .inr ⟨ps, split_of_cut hk hf, hf⟩

/-- Commas within a tuple, and within a name whose brackets do not match in kind. -/
theorem parse_pieces_names :
    parse "bool x(,], uint256[] n" = .ok [⟨"x(,]", .bool⟩, ⟨"n", .array .uint256⟩] ∧
      parse "(uint8 a, bool b)[2] y" =
        .ok [⟨"y", .fixedArray 2 (.tuple [⟨"a", .uint .w8⟩, ⟨"b", .bool⟩])⟩] ∧
      parse ("bool x(,], uint256[] n" ++ "," ++ "(uint8 a, bool b)[2] y") =
        .ok [⟨"x(,]", .bool⟩, ⟨"n", .array .uint256⟩,
          ⟨"y", .fixedArray 2 (.tuple [⟨"a", .uint .w8⟩, ⟨"b", .bool⟩])⟩] := by
  have hs : parse "bool x(,], uint256[] n" = .ok [⟨"x(,]", .bool⟩, ⟨"n", .array .uint256⟩] :=
    parse_of_joined (by decide) (by decide)
  have ht : parse "(uint8 a, bool b)[2] y" =
      .ok [⟨"y", .fixedArray 2 (.tuple [⟨"a", .uint .w8⟩, ⟨"b", .bool⟩])⟩] :=
    parse_of_joined (by decide) (by decide)
  exact ⟨hs, ht, parse_pieces.1 _ _ _ _ (by decide) (by decide) hs ht⟩

end Reading

end Attest.Schema
