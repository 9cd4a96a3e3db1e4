import Mathlib.Data.List.TakeDrop
import Attest.Json.Reader
import Attest.Proofs.Text.Decimal

set_option autoImplicit false

namespace Attest.Json

mutual

/-- Whether no part of a tree is kept as it was written. -/
def Plain : Json → Prop
  | .other _ => False
  | .array elements => PlainElements elements
  | .object members => PlainMembers members
  | _ => True

def PlainElements : List Json → Prop
  | [] => True
  | element :: elements => element.Plain ∧ PlainElements elements

def PlainMembers : List (String × Json) → Prop
  | [] => True
  | (_, value) :: members => value.Plain ∧ PlainMembers members

end

section Strings

theorem hexQuad?_hexDigit {n : Nat} (h : n < 32) :
    hexQuad? '0' '0' (Text.hexDigit (n / 16)) (Text.hexDigit (n % 16)) = some n := by
  have hz : Text.hexValue? 48 = some 0 := rfl
  have hn : n / 16 * 16 + n % 16 = n := by omega
  simp [hexQuad?, hz, Text.hexValue?_hexDigit _ (show n / 16 < 16 by omega),
    Text.hexValue?_hexDigit _ (show n % 16 < 16 by omega), hn]

theorem escape_cases (c : Char) :
    (∃ letter, escape c = ['\\', letter] ∧ simpleEscape? letter = some c) ∨
      (c.toNat < 32 ∧ escape c =
        ['\\', 'u', '0', '0', Text.hexDigit (c.toNat / 16), Text.hexDigit (c.toNat % 16)]) ∨
      (¬ c.toNat < 32 ∧ c ≠ '"' ∧ c ≠ '\\' ∧ escape c = [c]) := by
  unfold escape
  split
  · rename_i h
    rw [Bool.or_eq_true, decide_eq_true_eq, decide_eq_true_eq] at h
    rcases h with rfl | rfl <;> exact .inl ⟨_, rfl, rfl⟩
  rename_i hq
  rw [Bool.or_eq_true, decide_eq_true_eq, decide_eq_true_eq, not_or] at hq
  split
  · rename_i h
    exact .inl ⟨'b', rfl, by rw [← Char.ofNat_toNat c, h]; rfl⟩
  split
  · subst c
    exact .inl ⟨'t', rfl, rfl⟩
  split
  · subst c
    exact .inl ⟨'n', rfl, rfl⟩
  split
  · rename_i h
    exact .inl ⟨'f', rfl, by rw [← Char.ofNat_toNat c, h]; rfl⟩
  split
  · subst c
    exact .inl ⟨'r', rfl, rfl⟩
  split
  · rename_i h
    exact .inr (.inl ⟨h, rfl⟩)
  · rename_i h
    exact .inr (.inr ⟨h, hq.1, hq.2, rfl⟩)

theorem readUnits_letter {letter c : Char} (h : simpleEscape? letter = some c)
    (text : List Char) : readUnits ('\\' :: letter :: text) =
      (readUnits text).map fun r => (.char c :: r.1, r.2) := by
  have hu : letter ≠ 'u' := by
    rintro rfl
    cases h
  rw [readUnits]
  · rw [h]
    cases readUnits text <;> rfl
  · rintro a b c d rest rfl
    exact absurd rfl hu

theorem readUnits_number {n : Nat} (h : n < 32) (text : List Char) :
    readUnits ('\\' :: 'u' :: '0' :: '0' :: Text.hexDigit (n / 16) :: Text.hexDigit (n % 16) ::
      text) = (readUnits text).map fun r => (.unit n :: r.1, r.2) := by
  rw [readUnits, hexQuad?_hexDigit h]
  cases readUnits text <;> rfl

theorem readUnits_plain {c : Char} (h : ¬ c.toNat < 32) (hq : c ≠ '"') (hb : c ≠ '\\')
    (text : List Char) :
    readUnits (c :: text) = (readUnits text).map fun r => (.char c :: r.1, r.2) := by
  rw [readUnits]
  · rw [if_neg h]
    cases readUnits text <;> rfl
  · rintro rfl
    exact absurd rfl hq
  · rintro a b c d rest rfl
    exact absurd rfl hb
  · rintro a rest rfl
    exact absurd rfl hb

theorem unitsText?_number {c : Char} (h : c.toNat < 32) (units : List Unit16) :
    unitsText? (.unit c.toNat :: units) = (unitsText? units).map (c :: ·) := by
  have hh : isHighSurrogate c.toNat = false := by simp [isHighSurrogate]; omega
  have hl : isLowSurrogate c.toNat = false := by simp [isLowSurrogate]; omega
  rw [unitsText?.eq_def]
  simp [hh, hl]

theorem readUnits_escape (c : Char) (text : List Char) :
    ∃ unit, readUnits (escape c ++ text) =
        (readUnits text).map (fun r => (unit :: r.1, r.2)) ∧
      ∀ units, unitsText? (unit :: units) = (unitsText? units).map (c :: ·) := by
  rcases escape_cases c with ⟨letter, he, hl⟩ | ⟨hn, he⟩ | ⟨hn, hq, hb, he⟩
  · exact ⟨.char c, by rw [he]; exact readUnits_letter hl text, fun _ => rfl⟩
  · exact ⟨.unit c.toNat, by rw [he]; exact readUnits_number hn text, unitsText?_number hn⟩
  · exact ⟨.char c, by rw [he]; exact readUnits_plain hn hq hb text, fun _ => rfl⟩

theorem readUnits_flatMap_escape (text rest : List Char) :
    ∃ units, readUnits (text.flatMap escape ++ '"' :: rest) = some (units, rest) ∧
      unitsText? units = some text := by
  induction text with
  | nil => exact ⟨[], rfl, rfl⟩
  | cons c text ih =>
    obtain ⟨units, hr, ht⟩ := ih
    obtain ⟨unit, hu, hc⟩ := readUnits_escape c (text.flatMap escape ++ '"' :: rest)
    refine ⟨unit :: units, ?_, by rw [hc, ht]; rfl⟩
    rw [List.flatMap_cons, List.append_assoc, hu, hr]
    rfl

theorem readString_escape (text : String) (rest : List Char) :
    readString (text.toList.flatMap escape ++ '"' :: rest) = some (.string text, rest) := by
  obtain ⟨units, hr, ht⟩ := readUnits_flatMap_escape text.toList rest
  rw [readString, hr]
  simp only [Option.bind_eq_bind, Option.bind_some, ht, String.ofList_toList]
  rfl

end Strings

section Numbers

/-- Whether a number does not go on with a text. -/
def EndsNumber (text : List Char) : Prop :=
  ∀ c ∈ text.head?, c.isDigit = false ∧ c ≠ '.' ∧ c ≠ 'e' ∧ c ≠ 'E'

variable {rest : List Char}

theorem skipFraction_of_ends (h : EndsNumber rest) : skipFraction rest = some rest := by
  cases rest with
  | nil => rfl
  | cons c rest =>
    unfold skipFraction
    split
    · rename_i he
      exact absurd (List.cons.inj he).1 (h c rfl).2.1
    · rfl

theorem skipExponent_of_ends (h : EndsNumber rest) : skipExponent rest = some rest := by
  cases rest with
  | nil => rfl
  | cons c rest =>
    unfold skipExponent
    split
    · rename_i he
      exact absurd (List.cons.inj he).1 (h c rfl).2.2.1
    · rename_i he
      exact absurd (List.cons.inj he).1 (h c rfl).2.2.2
    · rfl

theorem span_digits {digits : List Char} (hd : ∀ c ∈ digits, c.isDigit = true)
    (h : EndsNumber rest) : (digits ++ rest).span Char.isDigit = (digits, rest) := by
  rw [List.span_eq_takeWhile_dropWhile, List.takeWhile_append_of_pos hd,
    List.dropWhile_append_of_pos hd]
  cases rest with
  | nil => simp
  | cons c rest => simp [(h c rfl).1]

theorem lexeme_append (front rest : List Char) : lexeme (front ++ rest) rest = front := by
  simp [lexeme]

theorem ofDigits_decimal (n : Nat) : ofDigits (Text.decimal n) = n := by
  have hf : ofDigits (Text.decimal n) = Nat.ofDigitChars 10 (Text.decimal n) 0 := by
    rw [ofDigits, Nat.ofDigitChars_eq_foldl]
    simp only [Nat.mul_comm]
    rfl
  rw [hf, Text.ofDigitChars_decimal]

theorem readDigits_decimal (n : Nat) (h : EndsNumber rest) :
    readDigits (Text.decimal n ++ rest) = some (Text.decimal n, rest) := by
  rw [readDigits, span_digits (fun c => Text.isDigit_of_mem_decimal) h]
  split
  · rename_i he
    exact absurd (Prod.mk.inj he).1 (Text.decimal_ne_nil n)
  · rename_i he
    rw [he]

theorem readNumber_decimal (n : Nat) (h : EndsNumber rest) :
    readNumber (Text.decimal n ++ rest) = some (.natural n, rest) := by
  have hm : (Text.decimal n ++ rest).head? ≠ some '-' := by
    obtain ⟨c, text, hd⟩ := List.exists_cons_of_ne_nil (Text.decimal_ne_nil n)
    rw [hd]
    intro hh
    have hc := Text.isDigit_of_mem_decimal (n := n) (c := c) (by simp [hd])
    rw [Option.some.inj hh] at hc
    cases hc
  have hz : ¬ ((Text.decimal n).head? = some '0' ∧ (Text.decimal n).length ≠ 1) := by
    rintro ⟨hh, hl⟩
    rw [Text.eq_zero_of_head?_decimal hh] at hl
    exact hl rfl
  rw [readNumber, if_neg hm, readDigits_decimal n h]
  simp only [Option.bind_eq_bind, Option.bind_some, hz, if_false, skipFraction_of_ends h,
    skipExponent_of_ends h, lexeme_append, if_true, ofDigits_decimal]
  rfl

end Numbers

section Values

variable {fuel : Nat} {c : Char} {text rest : List Char}

theorem skipBlanks_cons (h : isBlank c = false) : skipBlanks (c :: text) = c :: text := by
  simp [skipBlanks, h]

theorem ne_of_isDigit (h : c.isDigit = true) {d : Char} (hd : d.isDigit = false) : c ≠ d := by
  rintro rfl
  cases hd.symm.trans h

theorem isBlank_of_isDigit (h : c.isDigit = true) : isBlank c = false := by
  simp [isBlank, ne_of_isDigit h (d := ' ') rfl,
    ne_of_isDigit h (d := '\t') rfl,
    ne_of_isDigit h (d := '\n') rfl,
    ne_of_isDigit h (d := '\r') rfl]

theorem readValue_digit (h : c.isDigit = true) :
    readValue (fuel + 1) (c :: text) = readNumber (c :: text) := by
  rw [readValue, skipBlanks_cons (isBlank_of_isDigit h)]
  split
  · rename_i he
    exact absurd (List.cons.inj he).1 (ne_of_isDigit h rfl)
  · rename_i he
    exact absurd (List.cons.inj he).1 (ne_of_isDigit h rfl)
  · rename_i he
    exact absurd (List.cons.inj he).1 (ne_of_isDigit h rfl)
  · rename_i he
    cases he
    rw [h, Bool.or_true, if_pos rfl]
  · rename_i he
    cases he

theorem readValue_string (text : String) (rest : List Char) :
    readValue (fuel + 1) (stringText text ++ rest) = some (.string text, rest) := by
  rw [← readString_escape text rest, stringText, List.append_assoc]
  rfl

theorem readValue_array {elements : List Json} (hb : isBlank c = false) (hc : c ≠ ']')
    (h : readElements fuel (c :: text) = some (elements, rest)) :
    readValue (fuel + 1) ('[' :: c :: text) = some (.array elements, rest) := by
  rw [readValue, skipBlanks_cons rfl]
  simp only [skipBlanks_cons hb]
  split
  · rename_i he
    exact absurd (List.cons.inj he).1 hc
  · rw [h]
    rfl

theorem readElements_last {element : Json}
    (h : readValue fuel text = some (element, ']' :: rest)) :
    readElements (fuel + 1) text = some ([element], rest) := by
  rw [readElements, h]
  rfl

theorem readElements_more {element : Json} {elements : List Json} {more : List Char}
    (h : readValue fuel text = some (element, ',' :: more))
    (hs : readElements fuel more = some (elements, rest)) :
    readElements (fuel + 1) text = some (element :: elements, rest) := by
  rw [readElements, h]
  simp only [Option.bind_eq_bind, Option.bind_some, skipBlanks_cons (c := ',') rfl, hs]
  rfl

/-- Members as they are read, before their names are known to denote texts. -/
def unnamed (members : List (String × Json)) : List (Json × Json) :=
  members.map fun (name, value) => (.string name, value)

theorem named?_unnamed (members : List (String × Json)) :
    named? (unnamed members) = some members := by
  induction members with
  | nil => rfl
  | cons member members ih =>
    rw [unnamed, List.map_cons, named?, ← unnamed, ih]
    rfl

theorem readValue_object {members : List (String × Json)} (hb : isBlank c = false) (hc : c ≠ '}')
    (h : readMembers fuel (c :: text) = some (unnamed members, rest)) :
    readValue (fuel + 1) ('{' :: c :: text) = some (.object members, rest) := by
  rw [readValue, skipBlanks_cons rfl]
  simp only [skipBlanks_cons hb]
  split
  · rename_i he
    exact absurd (List.cons.inj he).1 hc
  · rw [h]
    simp only [Option.bind_eq_bind, Option.bind_some, named?_unnamed]
    rfl

theorem stringText_append (text : String) (rest : List Char) :
    stringText text ++ rest = '"' :: (text.toList.flatMap escape ++ '"' :: rest) := by
  simp [stringText]

theorem readMembers_last {name : String} {value : Json}
    (h : readValue fuel text = some (value, '}' :: rest)) :
    readMembers (fuel + 1) (stringText name ++ ':' :: text) =
      some (unnamed [(name, value)], rest) := by
  rw [readMembers, stringText_append, skipBlanks_cons rfl]
  simp only [readString_escape, Option.bind_eq_bind, Option.bind_some,
    skipBlanks_cons (c := ':') rfl, h]
  rfl

theorem readMembers_more {name : String} {value : Json} {members : List (String × Json)}
    {more : List Char} (h : readValue fuel text = some (value, ',' :: more))
    (hs : readMembers fuel more = some (unnamed members, rest)) :
    readMembers (fuel + 1) (stringText name ++ ':' :: text) =
      some (unnamed ((name, value) :: members), rest) := by
  rw [readMembers, stringText_append, skipBlanks_cons rfl]
  simp only [readString_escape, Option.bind_eq_bind, Option.bind_some,
    skipBlanks_cons (c := ':') rfl, h,
    skipBlanks_cons (c := ',') rfl, hs]
  rfl

theorem endsNumber_cons (hd : c.isDigit = false) (h : c ≠ '.' ∧ c ≠ 'e' ∧ c ≠ 'E') :
    EndsNumber (c :: text) := by
  intro d he
  cases he
  exact ⟨hd, h⟩

theorem render_head {json : Json} (h : json.Plain) : ∃ c text, json.render = c :: text ∧
    isBlank c = false ∧ c ≠ ']' := by
  cases json with
  | natural n =>
    obtain ⟨c, text, hd⟩ := List.exists_cons_of_ne_nil (Text.decimal_ne_nil n)
    have hc : c.isDigit = true := Text.isDigit_of_mem_decimal (n := n) (by simp [hd])
    exact ⟨c, text, hd, isBlank_of_isDigit hc, ne_of_isDigit hc rfl⟩
  | other lexeme => exact h.elim
  | bool value => cases value <;> exact ⟨_, _, rfl, rfl, by decide⟩
  | _ => exact ⟨_, _, rfl, rfl, by decide⟩

theorem intercalate_cons {x : List Char} {xs : List (List Char)} (h : xs ≠ []) :
    [','].intercalate (x :: xs) = x ++ ',' :: [','].intercalate xs := by
  obtain ⟨y, xs, rfl⟩ := List.exists_cons_of_ne_nil h
  rw [List.intercalate_cons_cons, List.append_assoc]
  rfl

theorem exists_intercalate_cons (x : List Char) (xs : List (List Char)) :
    ∃ more, [','].intercalate (x :: xs) = x ++ more := by
  cases xs with
  | nil => exact ⟨[], by rw [List.intercalate_singleton, List.append_nil]⟩
  | cons y xs => exact ⟨_, intercalate_cons (List.cons_ne_nil y xs)⟩

mutual

/-- A value is read up to a text that does not go on with a number. -/
theorem readValue_render (json : Json) (hp : json.Plain) (rest : List Char) {fuel : Nat}
    (hr : EndsNumber rest) (hf : 2 * json.render.length ≤ fuel) :
    readValue fuel (json.render ++ rest) = some (json, rest) := by
  obtain ⟨fuel, rfl⟩ : ∃ n, fuel = n + 1 := by
    obtain ⟨c, text, hc, -, -⟩ := render_head hp
    rw [hc, List.length_cons] at hf
    exact ⟨fuel - 1, by omega⟩
  cases json with
  | null => rfl
  | bool value => cases value <;> rfl
  | natural n =>
    obtain ⟨c, text, hd⟩ := List.exists_cons_of_ne_nil (Text.decimal_ne_nil n)
    have hc : c.isDigit = true := Text.isDigit_of_mem_decimal (n := n) (by simp [hd])
    have hv := readNumber_decimal n hr
    rw [hd] at hv
    change readValue (fuel + 1) (Text.decimal n ++ rest) = _
    rw [hd, ← hv]
    exact readValue_digit hc
  | string text => exact readValue_string text rest
  | other lexeme => exact hp.elim
  | array elements =>
    cases elements with
    | nil => rfl
    | cons element elements =>
      obtain ⟨c, text, hc, hb, hne⟩ := render_head hp.1
      obtain ⟨more, hm⟩ := exists_intercalate_cons element.render (renderElements elements)
      have hl : 2 * ([','].intercalate (renderElements (element :: elements))).length + 1 ≤
          fuel := by
        rw [render, List.length_append, List.length_cons] at hf
        omega
      have hs := readElements_render (element :: elements) (List.cons_ne_nil _ _) hp rest hl
      rw [render, List.cons_append, List.cons_append, List.append_assoc, List.singleton_append]
      rw [renderElements, hm, hc, List.cons_append, List.cons_append] at hs ⊢
      exact readValue_array hb hne hs
  | object members =>
    cases members with
    | nil => rfl
    | cons member members =>
      obtain ⟨name, value⟩ := member
      obtain ⟨more, hm⟩ := exists_intercalate_cons (stringText name ++ ':' :: value.render)
        (renderMembers members)
      have hl : 2 * ([','].intercalate (renderMembers ((name, value) :: members))).length + 1 ≤
          fuel := by
        rw [render, List.length_append, List.length_cons] at hf
        omega
      have hs := readMembers_render ((name, value) :: members) (List.cons_ne_nil _ _) hp rest hl
      rw [render, List.cons_append, List.cons_append, List.append_assoc, List.singleton_append]
      rw [renderMembers, hm, stringText_append, List.cons_append, List.cons_append] at hs ⊢
      exact readValue_object rfl (by decide) hs

theorem readElements_render (elements : List Json) (hn : elements ≠ [])
    (hp : PlainElements elements) (rest : List Char) {fuel : Nat}
    (hf : 2 * ([','].intercalate (renderElements elements)).length + 1 ≤ fuel) :
    readElements fuel ([','].intercalate (renderElements elements) ++ ']' :: rest) =
      some (elements, rest) := by
  obtain ⟨fuel, rfl⟩ : ∃ n, fuel = n + 1 := ⟨fuel - 1, by omega⟩
  cases elements with
  | nil => exact absurd rfl hn
  | cons element elements =>
    rw [renderElements] at hf ⊢
    by_cases he : elements = []
    · subst he
      rw [renderElements, List.intercalate_singleton] at hf ⊢
      exact readElements_last
        (readValue_render element hp.1 _ (endsNumber_cons rfl (by decide)) (by omega))
    · have hr : renderElements elements ≠ [] := by
        cases elements with
        | nil => exact absurd rfl he
        | cons => exact List.cons_ne_nil _ _
      rw [intercalate_cons hr, List.length_append, List.length_cons] at hf
      rw [intercalate_cons hr, List.append_assoc]
      exact readElements_more
        (readValue_render element hp.1 _ (endsNumber_cons rfl (by decide)) (by omega))
        (readElements_render elements he hp.2 _ (by omega))

theorem readMembers_render (members : List (String × Json)) (hn : members ≠ [])
    (hp : PlainMembers members) (rest : List Char) {fuel : Nat}
    (hf : 2 * ([','].intercalate (renderMembers members)).length + 1 ≤ fuel) :
    readMembers fuel ([','].intercalate (renderMembers members) ++ '}' :: rest) =
      some (unnamed members, rest) := by
  obtain ⟨fuel, rfl⟩ : ∃ n, fuel = n + 1 := ⟨fuel - 1, by omega⟩
  cases members with
  | nil => exact absurd rfl hn
  | cons member members =>
    obtain ⟨name, value⟩ := member
    rw [renderMembers] at hf ⊢
    by_cases he : members = []
    · subst he
      rw [renderMembers, List.intercalate_singleton] at hf ⊢
      rw [List.length_append, List.length_cons] at hf
      rw [List.append_assoc]
      exact readMembers_last
        (readValue_render value hp.1 _ (endsNumber_cons rfl (by decide)) (by omega))
    · have hr : renderMembers members ≠ [] := by
        cases members with
        | nil => exact absurd rfl he
        | cons => exact List.cons_ne_nil _ _
      rw [intercalate_cons hr, List.length_append, List.length_append, List.length_cons,
        List.length_cons] at hf
      rw [intercalate_cons hr, List.append_assoc, List.append_assoc]
      exact readMembers_more
        (readValue_render value hp.1 _ (endsNumber_cons rfl (by decide)) (by omega))
        (readMembers_render members he hp.2 _ (by omega))

end

theorem read_compact {json : Json} (h : json.Plain) : read json.compact = some json := by
  have hl : json.compact.length = json.render.length := by
    simp [compact]
  have hr := readValue_render json h [] nofun
    (show 2 * json.render.length ≤ 2 * json.compact.length + 2 by omega)
  rw [List.append_nil] at hr
  rw [read, show json.compact.toList = json.render by simp [compact], hr]
  rfl

theorem eq_of_compact_eq {json other : Json} (hj : json.Plain) (ho : other.Plain)
    (h : json.compact = other.compact) : json = other := by
  have hr := read_compact hj
  rw [h, read_compact ho] at hr
  exact (Option.some.inj hr).symm

end Values

end Attest.Json
