import Attest.Proofs.Schema.TypeText
import Attest.Proofs.Text.Spacing

set_option autoImplicit false

namespace Attest

open Text

namespace Schema

/-- How suffixes wrap a type, the innermost first, with sizes written as `spelled` tells. -/
inductive Wraps (spelled : Spelling) : Descriptor → List Char → Descriptor → Prop
  | nil (type : Descriptor) : Wraps spelled type [] type
  | array {type wrapped : Descriptor} {text : List Char} (h : Wraps spelled type.array text wrapped) :
    Wraps spelled type ('[' :: ']' :: text) wrapped
  | fixedArray {type wrapped : Descriptor} {digits text : List Char} {size : Nat}
    (hd : spelled digits size) (hs : 1 ≤ size ∧ size ≤ sizeMax)
    (h : Wraps spelled (.fixedArray size type) text wrapped) :
    Wraps spelled type ('[' :: digits ++ ']' :: text) wrapped

/-- Whether a text is a name and suffixes that stand for a type, with the sizes in the name and in the
    suffixes each written in one way. -/
def Denotes (names dimensions : Spelling) (text : List Char) (type : Descriptor) : Prop :=
  ∃ base suffixes inner, text = base ++ suffixes ∧ NameOf names base inner ∧
    Wraps dimensions inner suffixes type

def Canonical : Spelling := fun text n => text = decimal n

variable {text base suffixes : List Char} {inner type wrapped : Descriptor}

theorem suffixes_iff_wraps : Suffixes type text wrapped ↔ Wraps Signed type text wrapped := by
  constructor
  · intro h
    induction h with
    | nil type => exact .nil type
    | cons hd _ ih =>
      rcases dimensioned_eq_ok_iff.1 hd with ⟨rfl, rfl⟩ | ⟨size, hn, hs, rfl⟩
      · exact .array ih
      · exact .fixedArray hn hs ih
  · intro h
    induction h with
    | nil type => exact .nil type
    | array _ ih => exact .cons (dimensioned_eq_ok_iff.2 (.inl ⟨rfl, rfl⟩)) ih
    | fixedArray hd hs _ ih =>
      exact .cons (dimensioned_eq_ok_iff.2 (.inr ⟨_, hd, hs, rfl⟩)) ih

theorem plainType_eq_ok_iff_denotes :
    plainType text = .ok type ↔ Denotes Signed Signed text type := by
  simp only [plainType_eq_ok_iff, Denotes, elementary_eq_ok_iff, suffixes_iff_wraps]

section Canonical

variable {digits rest : List Char} {n : Nat}

theorem plus_not_mem_digits (h : Digits digits n) : '+' ∉ digits :=
  fun hc => by cases h.2.1 '+' hc

theorem digits_iff : Digits digits n ↔ Signed digits n ∧ '+' ∉ digits := by
  constructor
  · exact fun h => ⟨.inl h, plus_not_mem_digits h⟩
  · rintro ⟨h | ⟨digits, rfl, -⟩, hp⟩
    · exact h
    · exact absurd (List.mem_cons_self ..) hp

theorem canonical_iff (hn : n ≠ 0) (rest : List Char) : Canonical digits n ↔
    Signed digits n ∧ '+' ∉ digits ∧ (digits ++ rest).head? ≠ some '0' := by
  rw [← and_assoc, ← digits_iff]
  constructor
  · rintro rfl
    refine ⟨digits_decimal n, ?_⟩
    rw [List.head?_append_of_ne_nil _ (decimal_ne_nil n)]
    exact fun h => hn (eq_zero_of_head?_decimal h)
  · rintro ⟨hd, hz⟩
    rw [List.head?_append_of_ne_nil _ hd.1] at hz
    exact hd.eq_decimal hz

theorem wraps_digits_iff :
    Wraps Digits type text wrapped ↔ Wraps Signed type text wrapped ∧ '+' ∉ text := by
  constructor
  · intro h
    induction h with
    | nil type => exact ⟨.nil type, nofun⟩
    | array _ ih => exact ⟨.array ih.1, by simp [ih.2]⟩
    | fixedArray hd hs _ ih =>
      exact ⟨.fixedArray (.inl hd) hs ih.1, by simp [plus_not_mem_digits hd, ih.2]⟩
  · intro hx
    obtain ⟨h, hp⟩ := hx
    induction h with
    | nil type => exact .nil type
    | array _ ih => exact .array (ih (by simpa using hp))
    | fixedArray hd hs _ ih =>
      simp only [List.mem_append, List.mem_cons, not_or] at hp
      exact .fixedArray (digits_iff.2 ⟨hd, hp.1.2⟩) hs (ih hp.2.2)

/-- Whether the size in the name that a text begins with has a leading zero. -/
def Padded (text : List Char) : Prop := "uint0".toList <+: text ∨ "bytes0".toList <+: text

theorem padded_uint : Padded ("uint".toList ++ rest) ↔ rest.head? = some '0' := by
  cases rest with
  | nil => simp [Padded]
  | cons c rest => simp [Padded, @eq_comm _ c]

theorem padded_bytes : Padded ("bytes".toList ++ rest) ↔ rest.head? = some '0' := by
  cases rest with
  | nil => simp [Padded]
  | cons c rest => simp [Padded, @eq_comm _ c]

theorem nameOf_canonical_iff (hs : rest.head? ≠ some '0') : NameOf Canonical base type ↔
    NameOf Signed base type ∧ '+' ∉ base ∧ ¬ Padded (base ++ rest) := by
  have hb : ∀ width : UintWidth, width.bits ≠ 0 := by
    intro width
    cases width <;> decide
  constructor
  · intro h
    cases h with
    | address => exact ⟨.address, by decide, by simp [Padded]⟩
    | bool => exact ⟨.bool, by decide, by simp [Padded]⟩
    | string => exact ⟨.string, by decide, by simp [Padded]⟩
    | bytes => exact ⟨.bytes, by decide, mt padded_bytes.1 hs⟩
    | uint => exact ⟨.uint, by decide, mt padded_uint.1 hs⟩
    | uint256 => exact ⟨.uint256, by decide, by simp [Padded]⟩
    | @uintOf digits width hd =>
      obtain ⟨hn, hp, hz⟩ := (canonical_iff (hb width) rest).1 hd
      rw [List.append_assoc, padded_uint]
      exact ⟨.uintOf hn, by simp [hp], hz⟩
    | @bytesOf digits size hd hr =>
      obtain ⟨hn, hp, hz⟩ := (canonical_iff (by omega) rest).1 hd
      rw [List.append_assoc, padded_bytes]
      exact ⟨.bytesOf hn hr, by simp [hp], hz⟩
  · rintro ⟨h, hp, hz⟩
    cases h with
    | address => exact .address
    | bool => exact .bool
    | string => exact .string
    | bytes => exact .bytes
    | uint => exact .uint
    | uint256 => exact .uint256
    | @uintOf digits width hd =>
      rw [List.append_assoc, padded_uint] at hz
      rw [List.mem_append, not_or] at hp
      exact .uintOf ((canonical_iff (hb width) rest).2 ⟨hd, hp.2, hz⟩)
    | @bytesOf digits size hd hr =>
      rw [List.append_assoc, padded_bytes] at hz
      rw [List.mem_append, not_or] at hp
      exact .bytesOf ((canonical_iff (by omega) rest).2 ⟨hd, hp.2, hz⟩) hr

theorem head?_of_wraps {spelled : Spelling} (h : Wraps spelled type text wrapped) :
    text.head? ≠ some '0' := by
  cases h <;> simp

/-- The commonly spelled texts among those that stand for a type. -/
theorem denotes_canonical_iff : Denotes Canonical Digits text type ↔
    Denotes Signed Signed text type ∧ '+' ∉ text ∧ ¬ Padded text := by
  constructor
  · rintro ⟨base, suffixes, inner, rfl, hn, hw⟩
    obtain ⟨hs, hp⟩ := wraps_digits_iff.1 hw
    obtain ⟨hb, hq, hz⟩ := (nameOf_canonical_iff (head?_of_wraps hw)).1 hn
    exact ⟨⟨base, suffixes, inner, rfl, hb, hs⟩, by simp [hq, hp], hz⟩
  · rintro ⟨⟨base, suffixes, inner, rfl, hb, hs⟩, hp, hz⟩
    rw [List.mem_append, not_or] at hp
    exact ⟨base, suffixes, inner, rfl, (nameOf_canonical_iff (head?_of_wraps hs)).2 ⟨hb, hp.1, hz⟩,
      wraps_digits_iff.2 ⟨hs, hp.2⟩⟩

end Canonical

end Schema

namespace Descriptor

open Schema

variable {text : String} {type : Descriptor}

theorem ofText_iff_denotes (h : '(' ∉ text.toList) :
    ofText text = .ok type ↔ Denotes Signed Signed (trim text.toList) type := by
  have hh : '(' ∉ trim text.toList := fun hc => h (mem_of_mem_trim hc)
  rw [ofText, parseType_eq_ok_iff, ← plainType_eq_ok_iff_denotes]
  refine ⟨fun ht => ?_, .plain⟩
  generalize trim text.toList = found at ht hh
  cases ht with
  | plain ht => exact ht
  | group => simp at hh

/-- A text without parentheses is read as a type exactly if it is a name and suffixes, between blanks.
    Commonly spelled texts are the accepted ones without a plus sign and without a leading zero in the
    name. -/
theorem ofText_eq_ok_iff (h : '(' ∉ text.toList) :
    (ofText text = .ok type ↔ Denotes Signed Signed (trim text.toList) type) ∧
      (Denotes Canonical Digits (trim text.toList) type ↔
        ofText text = .ok type ∧ '+' ∉ trim text.toList ∧ ¬ Padded (trim text.toList)) := by
  have hd : ofText text = .ok type ↔ Denotes Signed Signed (trim text.toList) type :=
    ofText_iff_denotes h
  exact ⟨hd, by rw [hd, denotes_canonical_iff]⟩

theorem ofText_eq_ok_iff_grid : '(' ∉ "\t uint8[][007] ".toList ∧
    Denotes Canonical Digits "uint8[][007]".toList (.fixedArray 7 (.array (.uint .w8))) ∧
    ofText "\t uint8[][007] " = .ok (.fixedArray 7 (.array (.uint .w8))) := by
  have hp : '(' ∉ "\t uint8[][007] ".toList := by decide
  have hn : NameOf Canonical "uint8".toList (.uint .w8) :=
    have hs : Canonical "8".toList 8 := rfl
    .uintOf hs
  have hw : Wraps Digits (.uint .w8) "[][007]".toList (.fixedArray 7 (.array (.uint .w8))) :=
    have hs : Digits "007".toList 7 := ⟨by decide, List.all_eq_true.1 rfl, rfl⟩
    .array (.fixedArray hs (by decide) (.nil _))
  have hd : Denotes Canonical Digits "uint8[][007]".toList
      (.fixedArray 7 (.array (.uint .w8))) := ⟨_, _, _, rfl, hn, hw⟩
  have ht : trim "\t uint8[][007] ".toList = "uint8[][007]".toList := by decide
  exact ⟨hp, hd, ((ofText_eq_ok_iff hp).2.1 (ht ▸ hd)).1⟩

/-- A plus sign and a leading zero are accepted where types are not commonly spelled with them. -/
theorem not_denotes_canonical :
    (ofText "bool[+3]" = .ok (.fixedArray 3 .bool) ∧
      ∀ type, ¬ Denotes Canonical Digits "bool[+3]".toList type) ∧
    (ofText "uint+8" = .ok (.uint .w8) ∧
      ∀ type, ¬ Denotes Canonical Digits "uint+8".toList type) ∧
    ofText "bytes04" = .ok (.fixedBytes 4) ∧
      ∀ type, ¬ Denotes Canonical Digits "bytes04".toList type := by
  have h3 : Signed "+3".toList 3 := .inr ⟨"3".toList, rfl, digits_decimal 3⟩
  have h8 : Signed "+8".toList 8 := .inr ⟨"8".toList, rfl, digits_decimal 8⟩
  have h4 : Signed "04".toList 4 := .inl ⟨by decide, List.all_eq_true.1 rfl, rfl⟩
  refine ⟨⟨?_, fun type h => ?_⟩, ⟨?_, fun type h => ?_⟩, ?_, fun type h => ?_⟩
  · exact (ofText_iff_denotes (by decide)).2
      ⟨_, _, .bool, rfl, .bool, .fixedArray h3 (by decide) (.nil _)⟩
  · exact (denotes_canonical_iff.1 h).2.1 (by decide)
  · exact (ofText_iff_denotes (by decide)).2 ⟨_, [], _, rfl, .uintOf h8, .nil _⟩
  · exact (denotes_canonical_iff.1 h).2.1 (by decide)
  · exact (ofText_iff_denotes (by decide)).2 ⟨_, [], _, rfl, .bytesOf h4 (by decide), .nil _⟩
  · exact (denotes_canonical_iff.1 h).2.2 (padded_bytes.2 rfl)

end Descriptor

end Attest
