import Attest.Proofs.Schema.Scanning
import Attest.Proofs.Text.Decimal
import Attest.Schema.Parser

set_option autoImplicit false

namespace Attest

namespace Descriptor

def core : Descriptor → Descriptor
  | .fixedArray _ element | .array element => element.core
  | type => type

def suffixes : Descriptor → List Char
  | .fixedArray size element => element.suffixes ++ '[' :: Text.decimal size ++ [']']
  | .array element => element.suffixes ++ ['[', ']']
  | _ => []

theorem render_fixedArray (size : Nat) (element : Descriptor) :
    (fixedArray size element).render = element.render ++ '[' :: Text.decimal size ++ [']'] := rfl

theorem render_array (element : Descriptor) :
    element.array.render = element.render ++ ['[', ']'] := rfl

theorem render_eq (type : Descriptor) : type.render = type.core.render ++ type.suffixes := by
  match type with
  | .fixedArray size element =>
    rw [render_fixedArray, render_eq element, core, suffixes]
    simp
  | .array element =>
    rw [render_array, render_eq element, core, suffixes]
    simp
  | .address | .bool | .string | .fixedBytes _ | .bytes | .uint _ | .uint256 | .tuple _ =>
    simp [core, suffixes]

/-- Whether a type has a name that stands by itself, which is one that can be read. -/
def Elementary : Descriptor → Prop
  | .fixedBytes size => 1 ≤ size ∧ size ≤ 32
  | .tuple _ | .fixedArray _ _ | .array _ => False
  | _ => True

end Descriptor

namespace Schema

open Text

section Sizes

variable {text : List Char} {n : Nat}

theorem size?_eq_some_iff : size? text = some n ↔ Signed text n ∧ n ≤ sizeMax := by
  rw [← readSize_eq_ok_iff, size?]
  cases readSize text <;> simp [Except.toOption]

theorem not_signed_nil (n : Nat) : ¬ Signed [] n := by
  simp [Signed, Digits]

theorem isPlain_of_signed (h : Signed text n) : ∀ c ∈ text, isPlain c = true := by
  rcases h with ⟨-, hd, -⟩ | ⟨digits, rfl, -, hd, -⟩
  · exact fun c hc => isPlain_of_isDigit (hd c hc)
  · exact List.forall_mem_cons.2 ⟨rfl, fun c hc => isPlain_of_isDigit (hd c hc)⟩

end Sizes

section Suffixes

variable {type next wrapped : Descriptor} {dimension text rest : List Char}

theorem dimensioned_eq_ok_iff : dimensioned type dimension = .ok next ↔
    (dimension = [] ∧ next = .array type) ∨
      ∃ size, Signed dimension size ∧ (1 ≤ size ∧ size ≤ sizeMax) ∧ next = .fixedArray size type := by
  unfold dimensioned
  split
  · rename_i hd
    subst hd
    constructor
    · intro h
      cases h
      exact .inl ⟨rfl, rfl⟩
    · rintro (⟨-, rfl⟩ | ⟨size, hn, -⟩)
      · rfl
      · exact absurd hn (not_signed_nil size)
  · rename_i hd
    simp only [hd, false_and, false_or]
    constructor
    · intro h
      split at h
      · rename_i size hz
        cases h
        obtain ⟨hn, hm⟩ := size?_eq_some_iff.1 hz
        exact ⟨size + 1, hn, ⟨Nat.succ_pos size, hm⟩, rfl⟩
      · cases h
    · rintro ⟨size, hn, ⟨hp, hm⟩, rfl⟩
      obtain ⟨n, rfl⟩ : ∃ n, size = n + 1 := ⟨size - 1, by omega⟩
      rw [size?_eq_some_iff.2 ⟨hn, hm⟩]

theorem dimensioned_sound (h : dimensioned type dimension = .ok next) :
    (next = .array type ∨ ∃ size, 1 ≤ size ∧ size ≤ sizeMax ∧ next = .fixedArray size type) ∧
      ∀ c ∈ dimension, isPlain c = true := by
  rcases dimensioned_eq_ok_iff.1 h with ⟨rfl, rfl⟩ | ⟨size, hs, ⟨hn, hm⟩, rfl⟩
  · exact ⟨.inl rfl, nofun⟩
  · exact ⟨.inr ⟨size, hn, hm, rfl⟩, isPlain_of_signed hs⟩

theorem dimensioned_decimal {size : Nat} (h : 1 ≤ size) (hs : size ≤ sizeMax) :
    dimensioned type (decimal size) = .ok (.fixedArray size type) :=
  dimensioned_eq_ok_iff.2 (.inr ⟨size, .inl (digits_decimal size), ⟨h, hs⟩, rfl⟩)

/-- How suffixes wrap a type, the innermost first. -/
inductive Suffixes : Descriptor → List Char → Descriptor → Prop
  | nil (type : Descriptor) : Suffixes type [] type
  | cons {type next wrapped : Descriptor} {dimension text : List Char}
    (hd : dimensioned type dimension = .ok next) (h : Suffixes next text wrapped) :
    Suffixes type ('[' :: dimension ++ ']' :: text) wrapped

theorem cut?_of_not_mem {c : Char} {before : List Char} (h : c ∉ before) (after : List Char) :
    cut? c (before ++ c :: after) = some (before, after) := by
  induction before with
  | nil => simp [cut?]
  | cons x before ih =>
    rw [List.mem_cons, not_or] at h
    simp [cut?, Ne.symm h.1, ih h.2]

theorem suffixed_cons (hd : dimensioned type dimension = .ok next) (text : List Char) :
    suffixed type ('[' :: dimension ++ ']' :: text) = suffixed next text := by
  have hm : ']' ∉ dimension := fun hm => by cases (dimensioned_sound hd).2 _ hm
  have hc := cut?_of_not_mem hm text
  rw [List.cons_append, suffixed, if_pos rfl]
  split
  · rename_i before after ha
    rw [hc] at ha
    cases ha
    rw [hd]
    rfl
  · rename_i ha
    rw [hc] at ha
    cases ha

theorem suffixed_eq_ok_iff : suffixed type text = .ok wrapped ↔ Suffixes type text wrapped := by
  constructor
  · intro h
    induction hn : text.length using Nat.strongRecOn generalizing type text with
    | ind n ih =>
      rw [suffixed.eq_def] at h
      split at h
      · cases h
        exact .nil _
      · rename_i c text
        split at h
        · rename_i hc
          subst hc
          split at h
          · rename_i dimension after ha
            obtain rfl := cut?_eq_some ha
            cases hd : dimensioned type dimension with
            | error failure =>
              rw [hd] at h
              cases h
            | ok next =>
              rw [hd] at h
              have hl : after.length < n := by simp at hn; omega
              exact .cons hd (ih _ hl h rfl)
          · cases h
        · cases h
  · intro h
    induction h with
    | nil type => rw [suffixed]
    | cons hd _ ih => rw [suffixed_cons hd, ih]

namespace Suffixes

theorem append (h : Suffixes type text next) (hr : Suffixes next rest wrapped) :
    Suffixes type (text ++ rest) wrapped := by
  induction h with
  | nil => exact hr
  | cons hd _ ih => simpa using Suffixes.cons hd (ih hr)

theorem brackets_closed (h : Suffixes type text wrapped) : brackets.Closed text := by
  induction h with
  | nil => exact .nil
  | @cons type next wrapped dimension text hd _ ih =>
    have hp := (dimensioned_sound hd).2
    have hr := Scanner.run_of_ignores (fun c hc => brackets_ignores_plain (hp c hc)) 1
    have he : brackets.Closed ('[' :: dimension ++ [']']) := .enclose rfl ⟨rfl, rfl⟩ hr
    simpa using he.append ih

theorem characters (h : Suffixes type text wrapped) :
    ∀ c ∈ text, isPlain c = true ∨ c = '[' ∨ c = ']' := by
  induction h with
  | nil => exact nofun
  | cons hd _ ih =>
    have hp := (dimensioned_sound hd).2
    intro c hc
    rw [List.mem_append, List.mem_cons, List.mem_cons] at hc
    rcases hc with (rfl | hc) | rfl | hc
    · exact .inr (.inl rfl)
    · exact .inl (hp c hc)
    · exact .inr (.inr rfl)
    · exact ih c hc

theorem unbroken (h : Suffixes type text wrapped) : Unbroken text := by
  intro c hc
  rcases h.characters c hc with hp | rfl | rfl
  · exact (isPlain_iff.1 hp).1
  · rfl
  · rfl

theorem parentheses_ignores (h : Suffixes type text wrapped) :
    ∀ c ∈ text, parentheses.Ignores c := by
  intro c hc
  rcases h.characters c hc with hp | rfl | rfl
  · exact parentheses_ignores_plain hp
  · exact ⟨rfl, rfl, rfl⟩
  · exact ⟨rfl, rfl, rfl⟩

theorem eq_of_nil (h : Suffixes type [] wrapped) : wrapped = type := by
  cases h
  rfl

theorem head? (h : Suffixes type text wrapped) (hn : text ≠ []) : text.head? = some '[' := by
  cases h with
  | nil => exact absurd rfl hn
  | cons => rfl

end Suffixes

end Suffixes

section Names

variable {base : List Char} {type : Descriptor}

abbrev Spelling := List Char → Nat → Prop

/-- The names of the types without suffixes, with the sizes in them written as `spelled` tells. -/
inductive NameOf (spelled : Spelling) : List Char → Descriptor → Prop
  | address : NameOf spelled "address".toList .address
  | bool : NameOf spelled "bool".toList .bool
  | string : NameOf spelled "string".toList .string
  | bytes : NameOf spelled "bytes".toList .bytes
  | uint : NameOf spelled "uint".toList .uint256
  | uint256 : NameOf spelled "uint256".toList .uint256
  | uintOf {digits : List Char} {width : UintWidth} (h : spelled digits width.bits) :
    NameOf spelled ("uint".toList ++ digits) (.uint width)
  | bytesOf {digits : List Char} {size : Nat} (h : spelled digits size)
    (hs : 1 ≤ size ∧ size ≤ 32) : NameOf spelled ("bytes".toList ++ digits) (.fixedBytes size)

theorem uintWidth?_eq_some_iff {width : UintWidth} : uintWidth? base = some width ↔
    ∃ digits, base = "uint".toList ++ digits ∧ Signed digits width.bits := by
  have hw : width.bits ≤ sizeMax := by cases width <;> decide
  simp only [uintWidth?, Option.bind_eq_bind, Option.bind_eq_some_iff,
    List.isPrefixOf?_eq_some_iff_append_eq, UintWidth.ofBits?_eq_some_iff]
  constructor
  · rintro ⟨digits, rfl, _, hs, rfl⟩
    exact ⟨digits, rfl, (size?_eq_some_iff.1 hs).1⟩
  · rintro ⟨digits, rfl, hs⟩
    exact ⟨digits, rfl, _, size?_eq_some_iff.2 ⟨hs, hw⟩, rfl⟩

theorem bytesSize?_eq_some_iff {size : Nat} : bytesSize? base = some size ↔
    ∃ digits, base = "bytes".toList ++ digits ∧ Signed digits size ∧ 1 ≤ size ∧ size ≤ 32 := by
  simp only [bytesSize?, Option.bind_eq_bind, Option.bind_eq_some_iff,
    List.isPrefixOf?_eq_some_iff_append_eq, Option.ite_none_right_eq_some, Bool.and_eq_true,
    decide_eq_true_eq]
  constructor
  · rintro ⟨digits, rfl, _, hs, hn, h⟩
    cases h
    exact ⟨digits, rfl, (size?_eq_some_iff.1 hs).1, hn⟩
  · rintro ⟨digits, rfl, hs, hn⟩
    have hm : size ≤ sizeMax := Nat.le_trans hn.2 (by decide)
    exact ⟨digits, rfl, size, size?_eq_some_iff.2 ⟨hs, hm⟩, hn, rfl⟩

/-- The names that are no prefix with a size, and the name that is missing. -/
def fixedNames : List (List Char) :=
  ["address", "bool", "string", "bytes", "uint", "uint256", ""].map String.toList

theorem elementary_of_not_mem (h : base ∉ fixedNames) :
    elementary base = match uintWidth? base, bytesSize? base with
      | some width, _ => .ok (.uint width)
      | none, some size => .ok (.fixedBytes size)
      | none, none => .error (.unsupportedType (String.ofList base)) := by
  simp only [fixedNames, List.map_cons, List.map_nil, List.mem_cons, not_or] at h
  obtain ⟨ha, ho, hs, hb, hu, hw, hn, -⟩ := h
  have hne : base ≠ [] := hn
  have ht : ¬ (base = "uint".toList ∨ base = "uint256".toList) := not_or.2 ⟨hu, hw⟩
  exact (if_neg ha).trans <| (if_neg ho).trans <| (if_neg hs).trans <| (if_neg hb).trans <|
    (if_neg ht).trans (if_neg hne)

theorem uint_append_not_mem {digits : List Char} {width : UintWidth}
    (h : Signed digits width.bits) : "uint".toList ++ digits ∉ fixedNames := by
  have hn : digits ≠ [] := by
    rintro rfl
    exact not_signed_nil _ h
  have hw : digits ≠ "256".toList := by
    rintro rfl
    have hm : width.bits ≤ sizeMax := by cases width <;> decide
    have hr : readSize "256".toList = .ok width.bits := readSize_eq_ok_iff.2 ⟨h, hm⟩
    cases width <;> cases hr
  simpa [fixedNames, hn] using hw

theorem bytes_append_not_mem {digits : List Char} {size : Nat} (h : Signed digits size) :
    "bytes".toList ++ digits ∉ fixedNames := by
  have hn : digits ≠ [] := by
    rintro rfl
    exact not_signed_nil _ h
  simp [fixedNames, hn]

/-- A name is read as the type that it names, its size with leading zeros and behind a plus sign too. -/
theorem elementary_eq_ok_iff : elementary base = .ok type ↔ NameOf Signed base type := by
  constructor
  · intro h
    by_cases hm : base ∈ fixedNames
    · simp only [fixedNames, List.map_cons, List.map_nil, List.mem_cons, List.not_mem_nil,
        or_false] at hm
      rcases hm with rfl | rfl | rfl | rfl | rfl | rfl | rfl <;> cases h
      · exact .address
      · exact .bool
      · exact .string
      · exact .bytes
      · exact .uint
      · exact .uint256
    · rw [elementary_of_not_mem hm] at h
      split at h
      · rename_i hw
        cases h
        obtain ⟨digits, rfl, hd⟩ := uintWidth?_eq_some_iff.1 hw
        exact .uintOf hd
      · rename_i hs
        cases h
        obtain ⟨digits, rfl, hd, hn⟩ := bytesSize?_eq_some_iff.1 hs
        exact .bytesOf hd hn
      · cases h
  · intro h
    cases h with
    | @uintOf digits width hd =>
      rw [elementary_of_not_mem (uint_append_not_mem hd), uintWidth?_eq_some_iff.2 ⟨digits, rfl, hd⟩]
    | @bytesOf digits size hd hs =>
      have hu : uintWidth? ("bytes".toList ++ digits) = none := rfl
      rw [elementary_of_not_mem (bytes_append_not_mem hd), hu, bytesSize?_eq_some_iff.2 ⟨digits, rfl, hd, hs⟩]
    | _ => rfl

theorem elementary_sound (h : elementary base = .ok type) :
    type.Elementary ∧ base ≠ [] ∧ ∀ c ∈ base, isPlain c = true := by
  have hu : ∀ c ∈ "uint".toList, isPlain c = true := List.all_eq_true.1 rfl
  have hb : ∀ c ∈ "bytes".toList, isPlain c = true := List.all_eq_true.1 rfl
  cases elementary_eq_ok_iff.1 h with
  | uintOf hd => exact ⟨trivial, nofun, List.forall_mem_append.2 ⟨hu, isPlain_of_signed hd⟩⟩
  | bytesOf hd hs => exact ⟨hs, nofun, List.forall_mem_append.2 ⟨hb, isPlain_of_signed hd⟩⟩
  | _ => exact ⟨trivial, nofun, List.all_eq_true.1 rfl⟩

theorem elementary_render (h : type.Elementary) : elementary type.render = .ok type := by
  cases type with
  | fixedBytes size => exact elementary_eq_ok_iff.2 (.bytesOf (.inl (digits_decimal size)) h)
  | uint width => cases width <;> rfl
  | tuple _ | fixedArray _ _ | array _ => exact h.elim
  | _ => rfl

end Names

theorem plainType_eq_ok_iff {text : List Char} {type : Descriptor} :
    plainType text = .ok type ↔ ∃ base suffixes inner, text = base ++ suffixes ∧
      elementary base = .ok inner ∧ Suffixes inner suffixes type := by
  constructor
  · intro h
    refine ⟨text.takeWhile (· ≠ '['), text.dropWhile (· ≠ '['), ?_⟩
    unfold plainType at h
    cases he : elementary (text.takeWhile (· ≠ '[')) with
    | error failure =>
      rw [he] at h
      cases h
    | ok inner =>
      rw [he] at h
      exact ⟨inner, List.takeWhile_append_dropWhile.symm, rfl, suffixed_eq_ok_iff.1 h⟩
  · rintro ⟨base, suffixes, inner, rfl, he, hs⟩
    have hb : ∀ c ∈ base, decide (c ≠ '[') = true := by
      intro c hc
      rw [decide_eq_true_eq]
      rintro rfl
      cases (elementary_sound he).2.2 _ hc
    have ht : suffixes.takeWhile (· ≠ '[') = [] ∧ suffixes.dropWhile (· ≠ '[') = suffixes := by
      cases hs <;> simp
    unfold plainType
    rw [List.takeWhile_append_of_pos hb, List.dropWhile_append_of_pos hb, ht.1, ht.2,
      List.append_nil, he]
    exact suffixed_eq_ok_iff.2 hs

theorem plainType_characters {text : List Char} {type : Descriptor} (h : plainType text = .ok type) :
    text ≠ [] ∧ Unbroken text ∧ text.head? ≠ some '(' := by
  obtain ⟨base, suffixes, inner, rfl, he, hs⟩ := plainType_eq_ok_iff.1 h
  obtain ⟨-, hn, hp⟩ := elementary_sound he
  refine ⟨List.append_ne_nil_of_left_ne_nil hn _, (unbroken_of_plain hp).append hs.unbroken, ?_⟩
  rw [List.head?_append_of_ne_nil _ hn]
  intro hh
  cases hp '(' (List.mem_of_mem_head? hh)

end Schema

end Attest
