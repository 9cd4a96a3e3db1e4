import Attest.Schema.Brackets
import Attest.Text.Blank

set_option autoImplicit false

/-!
# Reading schema texts

    schema      := declaration ("," declaration)*
    declaration := type [name] | "(" schema ")" suffix* [name]
    type        := elementary suffix*
    suffix      := "[" digits "]" | "[]"

The last word of a declaration is its name and the words before it, joined by single spaces, are
its type. A declaration of one word has no name.
-/
namespace Attest.Schema

def size? (text : List Char) : Option Nat := (Text.readSize text).toOption

def uintWidth? (base : List Char) : Option UintWidth := do
  let digits ← "uint".toList.isPrefixOf? base
  let bits ← size? digits
  UintWidth.ofBits? bits

def bytesSize? (base : List Char) : Option Nat := do
  let digits ← "bytes".toList.isPrefixOf? base
  let size ← size? digits
  if 1 ≤ size && size ≤ 32 then some size else none

def elementary (base : List Char) : Result Descriptor :=
  if base = "address".toList then .ok .address
  else if base = "bool".toList then .ok .bool
  else if base = "string".toList then .ok .string
  else if base = "bytes".toList then .ok .bytes
  else if base = "uint".toList ∨ base = "uint256".toList then .ok .uint256
  else if base = [] then .error (.malformedSchema .missingType)
  else match uintWidth? base, bytesSize? base with
    | some width, _ => .ok (.uint width)
    | none, some size => .ok (.fixedBytes size)
    | none, none => .error (.unsupportedType (String.ofList base))

def dimensioned (type : Descriptor) (dimension : List Char) : Result Descriptor :=
  if dimension = [] then .ok (.array type)
  else match size? dimension with
    | some (size + 1) => .ok (.fixedArray (size + 1) type)
    | _ => .error (.malformedSchema (.arrayLength (String.ofList dimension)))

def suffixed (type : Descriptor) : List Char → Result Descriptor
  | [] => .ok type
  | c :: text =>
    if c = '[' then
      match _h : cut? ']' text with
      | some (dimension, after) => do
        let type ← dimensioned type dimension
        suffixed type after
      | none => .error (.malformedSchema (.unterminatedSuffix (String.ofList (c :: text))))
    else .error (.malformedSchema (.trailing (String.ofList (c :: text))))
termination_by text => text.length
decreasing_by
  have := congrArg List.length (cut?_eq_some _h)
  simp at this ⊢
  omega

def plainType (text : List Char) : Result Descriptor := do
  let type ← elementary (text.takeWhile (· ≠ '['))
  suffixed type (text.dropWhile (· ≠ '['))

inductive Form where
  | plain
  | group (inner rest : List Char)
  deriving DecidableEq, Repr

def form (text : List Char) : Result Form :=
  match text with
  | '(' :: body =>
    match closing? 0 body with
    | some (inner, rest) => .ok (.group inner rest)
    | none => .error (.malformedSchema (.unbalancedParentheses (String.ofList text)))
  | _ => .ok .plain

/-- The type text and the name among the words of a declaration of two words or more. -/
def splitName (words : List (List Char)) : List Char × List Char :=
  ([' '].intercalate words.dropLast, words.getLast?.getD [])

def groupEnd (rest : List Char) : List Char × List Char :=
  match Text.words rest with
  | [] => ([], [])
  | [word] => if word.head? = some '[' then (word, []) else ([], word)
  | words => splitName words

def plainDeclaration (text : List Char) : Result Declaration :=
  match Text.words text with
  | [] => .error (.malformedSchema .emptyDeclaration)
  | [word] => do
    let type ← plainType word
    return ⟨"", type⟩
  | words => do
    let (typeText, name) := splitName words
    let type ← plainType typeText
    return ⟨String.ofList name, type⟩

def tupleOf (fields : List Declaration) : Result Descriptor :=
  if fields.isEmpty then .error (.malformedSchema .emptyTuple) else .ok (.tuple fields)

theorem form_length_lt {text inner rest : List Char} (h : form text = .ok (.group inner rest)) :
    inner.length < text.length := by
  unfold form at h
  split at h
  · split at h
    · rename_i hc
      cases h
      have := congrArg List.length (closing?_eq_some hc)
      simp at this ⊢
      omega
    · cases h
  · cases h

/-- Reads a declaration, given the reader of the shorter texts inside its parentheses. -/
def declarationWith (piece : List Char)
    (fields : (inner : List Char) → inner.length < piece.length → Result (List Declaration)) :
    Result Declaration :=
  if Text.trim piece = [] then .error (.malformedSchema .emptyDeclaration)
  else match h : form (Text.trim piece) with
    | .error failure => .error failure
    | .ok .plain => plainDeclaration (Text.trim piece)
    | .ok (.group inner rest) => do
      let members ← fields inner
        (Nat.lt_of_lt_of_le (form_length_lt h) (Text.trim_length_le piece))
      let tuple ← tupleOf members
      let type ← suffixed tuple (groupEnd rest).1
      return ⟨String.ofList (groupEnd rest).2, type⟩

def parseList (text : List Char) : Result (List Declaration) :=
  if Text.trim text = [] then .ok []
  else match h : split text with
    | .error fault => .error (.malformedSchema fault)
    | .ok pieces => pieces.attach.mapM fun ⟨piece, hp⟩ =>
      declarationWith piece fun inner hi =>
        have : inner.length < text.length := Nat.lt_of_lt_of_le hi (split_length_le h hp)
        parseList inner
termination_by text.length

def declaration (piece : List Char) : Result Declaration :=
  declarationWith piece fun inner _ => parseList inner

theorem parseList_eq (text : List Char) :
    parseList text =
      if Text.trim text = [] then .ok []
      else match split text with
        | .error fault => .error (.malformedSchema fault)
        | .ok pieces => pieces.mapM declaration := by
  rw [parseList]
  split
  · rfl
  · split
    · rename_i h
      simp [h]
    · rename_i pieces h
      simp only [h]
      conv => rhs; rw [← List.unattach_attach (l := pieces), List.mapM_unattach]
      rfl

def parse (schema : String) : Result (List Declaration) := parseList schema.toList

def parseType (text : List Char) : Result Descriptor := do
  match ← form (Text.trim text) with
  | .plain => plainType (Text.trim text)
  | .group inner rest => do
    let members ← parseList inner
    let tuple ← tupleOf members
    suffixed tuple rest

end Attest.Schema

namespace Attest.Descriptor

def ofText (text : String) : Result Descriptor := Schema.parseType text.toList

end Attest.Descriptor
