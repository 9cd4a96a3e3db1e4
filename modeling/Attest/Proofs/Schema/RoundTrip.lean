import Attest.Proofs.Schema.Legible

set_option autoImplicit false

namespace Attest

open Schema Text

namespace Declaration

def joined (declarations : List Declaration) : List Char :=
  Descriptor.separator.intercalate (declarations.map Declaration.render)

def ending (d : Declaration) : List Char :=
  if d.name.toList = [] then [] else ' ' :: d.name.toList

theorem render_eq (d : Declaration) : d.render = d.item.render ++ d.ending := by
  unfold Declaration.render Descriptor.renderNamed ending
  split <;> simp

end Declaration

open Declaration

namespace Descriptor

theorem render_tuple (fields : List Declaration) :
    (tuple fields).render = '(' :: joined fields ++ [')'] := by
  rw [joined, ← renderFields_eq]
  rfl

theorem core_elementary_or_tuple (type : Descriptor) (h : type.Legible) :
    type.core.Elementary ∨ ∃ fields, type.core = .tuple fields ∧ (tuple fields).Legible := by
  match type with
  | .fixedArray _ element => exact core_elementary_or_tuple element h.2
  | .array element => exact core_elementary_or_tuple element h
  | .tuple fields => exact .inr ⟨fields, rfl, h⟩
  | .fixedBytes size => exact .inl h
  | .address | .bool | .string | .bytes | .uint _ | .uint256 => exact .inl trivial

theorem exists_render_of_core (type : Descriptor) (h : ∀ fields, type.core ≠ .tuple fields) :
    ∃ c text, type.render = c :: text ∧ c ≠ '(' := by
  match type with
  | .fixedArray size element =>
    obtain ⟨c, text, ht, hc⟩ := exists_render_of_core element h
    exact ⟨c, text ++ '[' :: decimal size ++ [']'], by rw [render_fixedArray, ht]; rfl, hc⟩
  | .array element =>
    obtain ⟨c, text, ht, hc⟩ := exists_render_of_core element h
    exact ⟨c, text ++ ['[', ']'], by rw [render_array, ht]; rfl, hc⟩
  | .tuple fields => exact absurd rfl (h fields)
  | .address | .bool | .string | .fixedBytes _ | .bytes | .uint _ | .uint256 =>
    exact ⟨_, _, rfl, by decide⟩

theorem Elementary.ne_tuple {type : Descriptor} (h : type.Elementary) (fields : List Declaration) :
    type ≠ .tuple fields := by
  rintro rfl
  exact h

theorem suffixes_sound (type : Descriptor) (h : type.Legible) :
    Suffixes type.core type.suffixes type := by
  match type with
  | .fixedArray size element =>
    have hd : dimensioned element (decimal size) = .ok (.fixedArray size element) :=
      dimensioned_decimal h.1.1 h.1.2
    have hs := (suffixes_sound element h.2).append (.cons hd (.nil _))
    simpa [suffixes, core] using hs
  | .array element =>
    have hd : dimensioned element [] = .ok element.array := rfl
    have hs := (suffixes_sound element h).append (.cons hd (.nil _))
    simpa [suffixes, core] using hs
  | .tuple _ | .fixedBytes _ | .address | .bool | .string | .bytes | .uint _ | .uint256 =>
    exact .nil _

theorem eq_core_of_suffixes_nil {type : Descriptor} (hs : type.suffixes = []) :
    type.core = type := by
  cases type <;> simp_all [core, suffixes]

end Descriptor

open Descriptor

namespace Schema

section Texts

variable {text rest : List Char} {type : Descriptor} {d : Declaration}
  {members fields : List Declaration}

/-- The texts that are read as a type, without blanks at their ends: plain ones, and groups of
    declarations with suffixes behind them. -/
inductive TextOf : List Char → Descriptor → Prop
  | plain {text : List Char} {type : Descriptor} (h : plainType text = .ok type) : TextOf text type
  | group {inner rest : List Char} {members : List Declaration} {type : Descriptor}
    (hm : parseList inner = .ok members) (hn : members ≠ []) (hp : parentheses.Closed inner)
    (hs : Suffixes (.tuple members) rest type) : TextOf ('(' :: inner ++ ')' :: rest) type

namespace TextOf

theorem legible (h : TextOf text type) : type.Legible := by
  cases h with
  | plain h => exact (plainType_sound h).1.1
  | group hm hn hp hs => exact hs.legible ((parseList_sound hm).legible_tuple hp hn)

theorem closed (h : TextOf text type) : brackets.Closed text := by
  cases h with
  | plain h => exact (plainType_sound h).2.1
  | @group inner rest members type hm hn hp hs =>
    have he : brackets.Closed ('(' :: inner ++ [')']) :=
      .enclose rfl ⟨rfl, rfl⟩ ((parseList_sound hm).inside 0)
    simpa using he.append hs.brackets_closed

theorem ends (h : TextOf text type) : text ≠ [] ∧ (∀ c ∈ text.head?, isBlank c = false) ∧
    ∀ c ∈ text.getLast?, isBlank c = false := by
  cases h with
  | plain h =>
    obtain ⟨hn, hu, -⟩ := plainType_characters h
    exact ⟨hn, fun c hm => hu c (List.mem_of_mem_head? hm),
      fun c hm => hu c (List.mem_of_mem_getLast? hm)⟩
  | @group inner rest members type hm hn hp hs =>
    refine ⟨by simp, by simp; rfl, fun c hc => ?_⟩
    by_cases hr : rest = []
    · rw [hr, List.getLast?_concat] at hc
      cases hc
      rfl
    · rw [List.append_cons, List.getLast?_append_of_ne_nil _ hr] at hc
      exact hs.unbroken c (List.mem_of_mem_getLast? hc)

end TextOf

theorem closed_ending (h : d.item.Accepts d.name.toList) : brackets.Closed d.ending := by
  unfold ending
  split
  · exact .nil
  · have hb : brackets.Closed [' '] := rfl
    exact hb.append h.2.1

theorem trim_ending (ht : TextOf text d.item) (h : d.item.Accepts d.name.toList) :
    trim (text ++ d.ending) = text ++ d.ending := by
  obtain ⟨hn, hf, hl⟩ := ht.ends
  apply trim_eq_self
  · rwa [List.head?_append_of_ne_nil _ hn]
  · by_cases hm : d.name.toList = []
    · rwa [ending, if_pos hm, List.append_nil]
    · intro c hc
      rw [ending, if_neg hm, List.append_cons, List.getLast?_append_of_ne_nil _ hm] at hc
      exact h.1 c (List.mem_of_mem_getLast? hc)

theorem plainDeclaration_ending (ht : plainType text = .ok d.item)
    (h : d.item.Accepts d.name.toList) : plainDeclaration (text ++ d.ending) = .ok d := by
  obtain ⟨hn, hu, -⟩ := plainType_characters ht
  obtain ⟨name, type⟩ := d
  by_cases hm : name.toList = []
  · have hw : words (text ++ ending ⟨name, type⟩) = [text] := by
      rw [ending, if_pos hm, List.append_nil, words_of_unbroken hu hn]
    have he : name = "" := String.toList_inj.1 hm
    rw [plainDeclaration, hw, he]
    simp only [ht]
    rfl
  · have hw : words (text ++ ending ⟨name, type⟩) = [text, name.toList] := by
      rw [ending, if_neg hm, words_append_blank rfl, words_of_unbroken hu hn,
        words_of_unbroken h.1 hm]
      rfl
    rw [plainDeclaration, hw]
    simp only [splitName, List.dropLast, List.intercalate_singleton, ht]
    simp

theorem groupEnd_ending (hs : Suffixes (.tuple members) rest d.item)
    (h : d.item.Accepts d.name.toList) : groupEnd (rest ++ d.ending) = (rest, d.name.toList) := by
  have hu := hs.unbroken
  have hw := words_of_unbroken h.1
  unfold groupEnd ending
  by_cases hm : d.name.toList = [] <;> by_cases hn : rest = []
  · simp [hm, hn]
    rfl
  · have hh := hs.head? hn
    rw [if_pos hm, List.append_nil, words_of_unbroken hu hn]
    simp [hh, hm]
  · subst hn
    have ht : d.item.isTuple = true := by
      rw [hs.eq_of_nil]
      rfl
    have hh := h.2.2 ht
    rw [if_neg hm, List.nil_append, words_cons_blank rfl, hw hm]
    simp [hh]
  · rw [if_neg hm, words_append_blank rfl, words_of_unbroken hu hn, hw hm]
    simp [splitName, List.intercalate_singleton]

theorem TextOf.declaration (ht : TextOf text d.item) (h : d.item.Accepts d.name.toList) :
    declaration (text ++ d.ending) = .ok d := by
  have htr := trim_ending ht h
  have hne : trim (text ++ d.ending) ≠ [] := by
    rw [htr]
    exact List.append_ne_nil_of_left_ne_nil ht.ends.1 _
  rw [declaration_eq hne, htr]
  generalize hty : d.item = type at ht
  cases ht with
  | plain ht =>
    obtain ⟨hn, -, hh⟩ := plainType_characters ht
    rw [form_of_head (by rwa [List.head?_append_of_ne_nil _ hn])]
    exact plainDeclaration_ending (hty ▸ ht) h
  | @group inner rest members type hm hn hp hs =>
    subst hty
    have hg : '(' :: inner ++ ')' :: rest ++ d.ending = '(' :: inner ++ ')' :: (rest ++ d.ending) := by
      simp
    have hts := suffixed_eq_ok_iff.2 hs
    have htu := tupleOf_eq_ok_iff.2 ⟨hn, rfl⟩
    rw [form_group_iff.2 ⟨hg, hp⟩]
    simp only [bind, Except.bind, hm, htu, groupEnd_ending hs h, hts]
    rw [String.ofList_toList]
    rfl

theorem plainType_render (he : type.core.Elementary) (h : type.Legible) :
    plainType type.render = .ok type :=
  plainType_eq_ok_iff.2 ⟨type.core.render, type.suffixes, type.core, type.render_eq,
    elementary_render he, suffixes_sound type h⟩

theorem render_group (hc : d.item.core = .tuple fields) :
    d.render = '(' :: joined fields ++ ')' :: (d.item.suffixes ++ d.ending) := by
  rw [Declaration.render_eq, Descriptor.render_eq, hc, render_tuple]
  simp

theorem head?_render (hn : ∀ fields, d.item.core ≠ .tuple fields) : d.render.head? ≠ some '(' := by
  obtain ⟨c, text, ht, hc⟩ := exists_render_of_core d.item hn
  rw [Declaration.render_eq, ht, List.cons_append, List.head?_cons]
  exact fun hs => hc (Option.some.inj hs)

theorem Declares.closed (hd : Declares text members) (h : (tuple members).Legible) :
    parentheses.Closed text := by
  rw [Scanner.Closed, hd.run]
  exact h.2.1

/-- What is written for a type is a text of it, if the fields of a tuple in front of its suffixes
    are read back. -/
theorem textOf_render (h : type.Legible)
    (hf : ∀ fields, type.core = .tuple fields → parseList (joined fields) = .ok fields) :
    TextOf type.render type := by
  rcases core_elementary_or_tuple type h with hc | ⟨fields, hc, hl⟩
  · exact .plain (plainType_render hc h)
  · -- The scanners go over the fields as over any text that fields are read from.
    have hs := suffixes_sound type h
    have hp := (parseList_sound (hf fields hc)).closed hl
    have hg : type.render = '(' :: joined fields ++ ')' :: type.suffixes := by
      rw [Descriptor.render_eq, hc, render_tuple]
      simp
    rw [hc] at hs
    rw [hg]
    exact .group (hf fields hc) hl.1 hp hs

end Texts

section Reading

variable {d : Declaration} {declarations : List Declaration}

/-- Whether a declaration is read back from its text, also where it stands among others. -/
structure ReadBack (d : Declaration) : Prop where
  closed : brackets.Closed d.render
  read : declaration d.render = .ok d

theorem declaration_of_trim_nil {piece : List Char} (h : trim piece = []) :
    declaration piece = .error (.malformedSchema .emptyDeclaration) := by
  rw [declaration, declarationWith, if_pos h]

theorem trim_ne_nil_of_declaration {piece : List Char} (h : declaration piece = .ok d) :
    trim piece ≠ [] := by
  intro ht
  rw [declaration_of_trim_nil ht] at h
  cases h

theorem trim_intercalate_ne_nil {p : List Char} (h : trim p ≠ []) (ps : List (List Char)) :
    trim ([','].intercalate (p :: ps)) ≠ [] := by
  rw [Ne, trim_eq_nil_iff] at h ⊢
  rw [intercalate_cons, ink, List.filter_append, List.append_eq_nil_iff]
  exact fun ht => h ht.1

theorem declaration_cons_blank (piece : List Char) :
    declaration (' ' :: piece) = declaration piece := by
  have ht := trim_cons_blank (c := ' ') rfl piece
  by_cases hn : trim piece = []
  · rw [declaration_of_trim_nil hn, declaration_of_trim_nil (ht.trans hn)]
  · rw [declaration_eq hn, declaration_eq (ht ▸ hn), ht]

theorem separator_intercalate (p : List Char) (ps : List (List Char)) :
    separator.intercalate (p :: ps) = [','].intercalate (p :: ps.map (' ' :: ·)) := by
  induction ps generalizing p with
  | nil => rfl
  | cons q ps ih =>
    rw [List.intercalate_cons_cons, ih, List.map_cons, List.intercalate_cons_cons,
      intercalate_cons, intercalate_cons]
    simp [separator]

theorem joined_cons (d : Declaration) (others : List Declaration) : joined (d :: others) =
    [','].intercalate (d.render :: others.map fun d => ' ' :: d.render) := by
  rw [joined, List.map_cons, separator_intercalate, List.map_map]
  rfl

theorem parseList_joined (h : ∀ d ∈ declarations, ReadBack d) :
    parseList (joined declarations) = .ok declarations := by
  cases declarations with
  | nil =>
    rw [parseList_eq]
    rfl
  | cons d others =>
    have hj := joined_cons d others
    rw [List.forall_mem_cons] at h
    obtain ⟨hd, ho⟩ := h
    have hn : trim (joined (d :: others)) ≠ [] := by
      rw [hj]
      exact trim_intercalate_ne_nil (trim_ne_nil_of_declaration hd.read) _
    have hs : split (joined (d :: others)) =
        .ok (d.render :: others.map fun d => ' ' :: d.render) := by
      refine split_eq_ok_iff.2 ⟨by simp, List.forall_mem_cons.2 ⟨hd.closed, ?_⟩, hj.symm⟩
      simp only [List.forall_mem_map]
      intro d hd
      have hb : brackets.Closed [' '] := rfl
      exact hb.append (ho d hd).closed
    rw [parseList_eq, if_neg hn, hs]
    refine Result.mapM_eq_ok.2 (.cons hd.read ?_)
    rw [List.forall₂_map_left_iff, List.forall₂_same]
    intro d hd
    rw [declaration_cons_blank, (ho d hd).read]

theorem readBack_of_core (h : d.Legible)
    (hf : ∀ fields, d.item.core = .tuple fields → parseList (joined fields) = .ok fields) :
    ReadBack d := by
  have ht := textOf_render h.2 hf
  refine ⟨?_, ?_⟩
  · rw [Declaration.render_eq]
    exact ht.closed.append (closed_ending h.1)
  · rw [Declaration.render_eq]
    exact ht.declaration h.1

mutual

theorem parseList_core (type : Descriptor) (h : type.Legible) :
    ∀ fields, type.core = .tuple fields → parseList (joined fields) = .ok fields := by
  match type with
  | .tuple fields =>
    rintro _ ⟨⟩
    exact parseList_joined (readBack_all fields h.2.2)
  | .fixedArray _ element => exact parseList_core element h.2
  | .array element => exact parseList_core element h
  | .fixedBytes _ | .address | .bool | .string | .bytes | .uint _ | .uint256 => exact nofun

theorem readBack_all (declarations : List Declaration) (h : AllLegible declarations) :
    ∀ d ∈ declarations, ReadBack d := by
  match declarations with
  | [] => exact nofun
  | ⟨name, type⟩ :: others =>
    exact List.forall_mem_cons.2
      ⟨readBack_of_core h.1 (parseList_core type h.1.2), readBack_all others h.2⟩

end

theorem parseList_joined_of_legible (h : AllLegible declarations) :
    parseList (joined declarations) = .ok declarations :=
  parseList_joined (readBack_all declarations h)

theorem closed_joined (h : (tuple declarations).Legible) : parentheses.Closed (joined declarations) :=
  (parseList_sound (parseList_joined_of_legible h.2.2)).closed h

end Reading

end Schema

end Attest
