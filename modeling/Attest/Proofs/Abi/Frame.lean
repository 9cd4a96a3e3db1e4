import Attest.Proofs.Bytes

set_option autoImplicit false

namespace Attest.Abi

def Part.size (part : Part) : Nat := part.headSize + part.tail.length

theorem Part.size_eq (part : Part) :
    part.size = (if part.inTail then 32 else 0) + part.body.length := by
  cases h : part.inTail <;> simp [Part.size, Part.headSize, Part.tail, h]

theorem heads_length (parts : List Part) (next : Nat) :
    (heads next parts).length = headsSize parts := by
  induction parts generalizing next with
  | nil => rfl
  | cons part parts ih =>
    cases h : part.inTail <;>
      simp [heads, headsSize, Part.headSize, h, sizeWord_length, ih]

theorem frame_length (parts : List Part) : (frame parts).length = (parts.map Part.size).sum := by
  have ht : headsSize parts + (parts.flatMap Part.tail).length = (parts.map Part.size).sum := by
    induction parts with
    | nil => rfl
    | cons part parts ih =>
      simp only [headsSize, List.flatMap_cons, List.length_append, List.map_cons, List.sum_cons,
        Part.size]
      omega
  rw [frame, List.length_append, heads_length, ht]

/-- Whether a part can be read whose head stands at `pos`. -/
def Placed (data : Bytes) (pos : Nat) (part : Part) : Prop :=
  if part.inTail then ∃ start, data.HasAt pos (sizeWord start) ∧ data.HasAt start part.body
  else data.HasAt pos part.body

def AllPlaced (data : Bytes) : Nat → List Part → Prop
  | _, [] => True
  | pos, part :: parts => Placed data pos part ∧ AllPlaced data (pos + part.headSize) parts

theorem allPlaced_of_heads {data : Bytes} {pos next : Nat} {parts : List Part}
    (hh : data.HasAt pos (heads next parts)) (ht : data.HasAt next (parts.flatMap Part.tail)) :
    AllPlaced data pos parts := by
  induction parts generalizing pos next with
  | nil => trivial
  | cons part parts ih =>
    rw [List.flatMap_cons, Part.tail] at ht
    cases h : part.inTail
    · simp only [heads, h, Bool.false_eq_true, if_false] at hh ht
      refine ⟨?_, ?_⟩
      · simpa [Placed, h] using hh.left
      · simpa [Part.headSize, h] using ih hh.right ht
    · simp only [heads, h, if_true] at hh ht
      have hr := hh.right
      rw [sizeWord_length] at hr
      refine ⟨?_, ?_⟩
      · simpa [Placed, h] using ⟨next, hh.left, ht.left⟩
      · simpa [Part.headSize, h] using ih hr ht.right

theorem allPlaced_frame {data : Bytes} {parts : List Part} (h : data.HasAt 0 (frame parts)) :
    AllPlaced data 0 parts := by
  have ht := h.right
  rw [heads_length, Nat.zero_add] at ht
  exact allPlaced_of_heads h.left ht

/-- Without tails a frame may stand anywhere, because no head tells a position. -/
theorem allPlaced_inline {data : Bytes} {pos : Nat} {parts : List Part}
    (hp : ∀ part ∈ parts, part.inTail = false) (h : data.HasAt pos (frame parts)) :
    AllPlaced data pos parts := by
  have ht : parts.flatMap Part.tail = [] := by
    rw [List.flatMap_eq_nil_iff]
    intro part hm
    simp [Part.tail, hp part hm]
  have hl := h.left.le_length
  rw [heads_length] at hl
  apply allPlaced_of_heads h.left
  rw [ht]
  exact Bytes.hasAt_nil (by omega)

theorem headsSize_of_inline {parts : List Part} (hp : ∀ part ∈ parts, part.inTail = false) :
    headsSize parts = (frame parts).length := by
  have ht : (parts.flatMap Part.tail).length = 0 := by
    rw [List.length_eq_zero_iff, List.flatMap_eq_nil_iff]
    intro part hm
    simp [Part.tail, hp part hm]
  rw [frame, List.length_append, heads_length, ht, Nat.add_zero]

end Attest.Abi
