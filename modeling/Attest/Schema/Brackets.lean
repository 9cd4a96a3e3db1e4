import Attest.Failure

set_option autoImplicit false

/-!
# Brackets of schema texts

`split` cuts a text at the commas outside of all brackets; it counts round and square brackets
together and does not ask whether they match in kind. `closing?` finds the parenthesis that closes
an open one; it counts parentheses alone.
-/
namespace Attest.Schema

def isOpening (c : Char) : Bool := c = '(' || c = '['

def isClosing (c : Char) : Bool := c = ')' || c = ']'

/-- Checks that no bracket closes before it opens and that all are closed at the end. Positions
    count the bytes of the UTF-8 form. -/
def checkBalance (whole : List Char) (depth position : Nat) :
    List Char → Except SchemaFault Unit
  | [] => if depth = 0 then .ok () else .error (.unbalancedBrackets (String.ofList whole))
  | c :: text =>
    if isOpening c then checkBalance whole (depth + 1) (position + c.utf8Size) text
    else if isClosing c then
      if depth = 0 then .error (.unexpectedBracket c position)
      else checkBalance whole (depth - 1) (position + c.utf8Size) text
    else checkBalance whole depth (position + c.utf8Size) text

def depthAfter (depth : Nat) (c : Char) : Nat :=
  if isOpening c then depth + 1 else if isClosing c then depth - 1 else depth

/-- What stands between the commas at depth zero; one piece more than commas. -/
def pieces (depth : Nat) : List Char → List (List Char)
  | [] => [[]]
  | c :: text =>
    if c = ',' ∧ depth = 0 then [] :: pieces 0 text
    else (pieces (depthAfter depth c) text).modifyHead (c :: ·)

def split (text : List Char) : Except SchemaFault (List (List Char)) :=
  match checkBalance text 0 0 text with
  | .ok () => .ok (pieces 0 text)
  | .error fault => .error fault

/-- The text before the parenthesis that closes an open one, and the text after it. Inside,
    `depth` more are open. -/
def closing? (depth : Nat) : List Char → Option (List Char × List Char)
  | [] => none
  | c :: text =>
    if c = ')' ∧ depth = 0 then some ([], text)
    else
      let inside := if c = '(' then depth + 1 else if c = ')' then depth - 1 else depth
      (closing? inside text).map fun (inner, rest) => (c :: inner, rest)

def cut? (c : Char) : List Char → Option (List Char × List Char)
  | [] => none
  | x :: text =>
    if x = c then some ([], text) else (cut? c text).map fun (before, after) => (x :: before, after)

theorem pieces_length_le {depth : Nat} {text piece : List Char} (h : piece ∈ pieces depth text) :
    piece.length ≤ text.length := by
  induction text generalizing depth piece with
  | nil => simp_all [pieces]
  | cons c text ih =>
    rw [pieces] at h
    split at h
    · rcases List.mem_cons.1 h with rfl | h
      · simp
      · have := ih h
        simp
        omega
    · cases hp : pieces (depthAfter depth c) text with
      | nil => simp [hp] at h
      | cons first others =>
        rw [hp, List.modifyHead_cons, List.mem_cons] at h
        rcases h with rfl | h
        · have := ih (hp ▸ List.mem_cons_self : first ∈ pieces (depthAfter depth c) text)
          simpa using this
        · have := ih (hp ▸ List.mem_cons_of_mem _ h : piece ∈ pieces (depthAfter depth c) text)
          simp
          omega

theorem split_length_le {text piece : List Char} {ps : List (List Char)}
    (h : split text = .ok ps) (hp : piece ∈ ps) : piece.length ≤ text.length := by
  unfold split at h
  split at h
  · cases h
    exact pieces_length_le hp
  · cases h

theorem closing?_eq_some {depth : Nat} {text inner rest : List Char}
    (h : closing? depth text = some (inner, rest)) : text = inner ++ ')' :: rest := by
  induction text generalizing depth inner with
  | nil => cases h
  | cons c text ih =>
    rw [closing?] at h
    split at h
    · simp_all
    · obtain ⟨⟨inner', rest'⟩, hc, he⟩ := Option.map_eq_some_iff.1 h
      cases he
      simp [ih hc]

theorem cut?_eq_some {c : Char} {text before after : List Char}
    (h : cut? c text = some (before, after)) : text = before ++ c :: after := by
  induction text generalizing before with
  | nil => cases h
  | cons x text ih =>
    rw [cut?] at h
    split at h
    · simp_all
    · obtain ⟨⟨before', after'⟩, hc, he⟩ := Option.map_eq_some_iff.1 h
      cases he
      simp [ih hc]

end Attest.Schema
