import Attest.Proofs.Schema.Pieces
import Attest.Proofs.Schema.Spacing
import Attest.Proofs.Schema.TypeText

set_option autoImplicit false

namespace Attest.Schema

open Text

variable {x y text : List Char} {d : Declaration} {ds : List Declaration}

theorem parseList_of_words (h : words x = words y) (hy : parseList y = .ok ds) :
    parseList x = .ok ds := by
  have ha := parseList_alike h
  rw [hy] at ha
  generalize parseList x = found at ha
  cases ha with
  | ok he => rw [he]

theorem words_append_ending (text : List Char) (d : Declaration) :
    words (text ++ d.ending) = words (trim text ++ d.ending) := by
  unfold Declaration.ending
  split
  · rw [List.append_nil, List.append_nil, words_trim]
  · rw [words_append_blank rfl, words_append_blank rfl, words_trim]

theorem parseList_ending (h : parseType text = .ok d.item) (ha : d.item.Accepts d.name.toList) :
    parseList (text ++ d.ending) = .ok [d] := by
  have ht := parseType_eq_ok_iff.1 h
  have hc : brackets.Closed (trim text ++ d.ending) := ht.closed.append (closed_ending ha)
  apply parseList_of_words (words_append_ending text d)
  exact (parseList_eq_singleton_iff hc).2 (ht.declaration ha)

/-- What is read as a type is a schema of one field of that type, without a name. With a word of
    plain characters behind it, the field has that name. -/
theorem parse_ofText {text : String} {type : Descriptor} (h : Descriptor.ofText text = .ok type) :
    parse text = .ok [⟨"", type⟩] ∧
      ∀ name : String, name ≠ "" → (∀ c ∈ name.toList, isPlain c = true) →
        parse (text ++ " " ++ name) = .ok [⟨name, type⟩] := by
  have hp : ∀ d : Declaration, d.item = type → (∀ c ∈ d.name.toList, isPlain c = true) →
      parseList (text.toList ++ d.ending) = .ok [d] := by
    rintro d rfl hd
    exact parseList_ending h (Descriptor.accepts_of_plain d.item hd)
  constructor
  · have hu := hp ⟨"", type⟩ rfl nofun
    have he : Declaration.ending ⟨"", type⟩ = [] := rfl
    rwa [he, List.append_nil] at hu
  · intro name hn hc
    have hm : name.toList ≠ [] := fun he => hn (String.toList_inj.1 he)
    have hd := hp ⟨name, type⟩ rfl hc
    have hl : (text ++ " " ++ name).toList = text.toList ++ ' ' :: name.toList := by simp
    rwa [Declaration.ending, if_neg hm, ← hl] at hd

def amounts : Descriptor :=
  .fixedArray 2 (.array (.tuple
    [⟨"amount", .uint256⟩, ⟨"", .fixedArray 3 (.tuple [⟨"ok", .bool⟩])⟩]))

/-- Blanks within the parentheses and around the text, and suffixes behind both. -/
theorem parse_ofText_amounts :
    Descriptor.ofText " ( uint256  amount,\t(bool ok)[3] )[][+02] " = .ok amounts ∧
      parse " ( uint256  amount,\t(bool ok)[3] )[][+02] " = .ok [⟨"", amounts⟩] ∧
      parse (" ( uint256  amount,\t(bool ok)[3] )[][+02] " ++ " " ++ "né") =
        .ok [⟨"né", amounts⟩] := by
  have hw : words " uint256  amount,\t(bool ok)[3] ".toList =
      words "uint256 amount, (bool ok)[3]".toList := by decide
  have hm : parse "uint256 amount, (bool ok)[3]" =
      .ok [⟨"amount", .uint256⟩, ⟨"", .fixedArray 3 (.tuple [⟨"ok", .bool⟩])⟩] :=
    parse_of_joined (by decide) (by decide)
  have hg : trim " ( uint256  amount,\t(bool ok)[3] )[][+02] ".toList =
      '(' :: " uint256  amount,\t(bool ok)[3] ".toList ++ ')' :: "[][+02]".toList := by decide
  have hs : ∀ type : Descriptor, Suffixes type "[][+02]".toList (.fixedArray 2 type.array) := by
    intro type
    have ha : dimensioned type [] = .ok type.array := rfl
    have hd : dimensioned type.array "+02".toList = .ok (.fixedArray 2 type.array) := rfl
    exact .cons ha (.cons hd (.nil _))
  have ht : Descriptor.ofText " ( uint256  amount,\t(bool ok)[3] )[][+02] " = .ok amounts := by
    apply parseType_eq_ok_iff.2
    rw [hg]
    exact .group (parseList_of_words hw hm) (List.cons_ne_nil _ _) (by decide) (hs _)
  obtain ⟨hu, hn⟩ := parse_ofText ht
  exact ⟨ht, hu, hn "né" (by decide) (List.all_eq_true.1 rfl)⟩

end Attest.Schema
