import Attest.Proofs.Faults
import Attest.Proofs.Host.Conversion

set_option autoImplicit false

namespace Attest

structure Component where
  path : Path
  type : HostType
  value : type.Val

namespace Scalar

def naturalLoss? (n : Nat) : Option Reason :=
  if 2 ^ 256 ≤ n then some (.tooWide (bitLength n)) else none

end Scalar

namespace HostType

/-- Why a payload cannot hold a host value, whatever else is inside it. -/
def loss? : (t : HostType) → t.Val → Option Reason
  | .scalar .natural, n => Scalar.naturalLoss? n
  | .optional _, none => some .absent
  | _, _ => none

end HostType

namespace Component

def loss? (c : Component) : Option Reason := c.type.loss? c.value

def under (segment : Segment) (c : Component) : Component := { c with path := segment :: c.path }

def fault? (c : Component) : Option Fault := c.loss?.map fun reason => ⟨c.path, reason⟩

def numbered {α : Type} (segment : Nat → Segment) (components : α → List Component)
    (items : List α) : List Component :=
  items.zipIdx.flatMap fun (item, i) => (components item).map (.under (segment i))

def faults (components : List Component) : List Fault := components.filterMap fault?

theorem faults_singleton (c : Component) : faults [c] = c.fault?.toList := by
  rw [faults, List.filterMap_cons]
  cases c.fault? <;> rfl

theorem faults_append (components others : List Component) :
    faults (components ++ others) = faults components ++ faults others := List.filterMap_append

theorem faults_ne_nil_iff {components : List Component} :
    faults components ≠ [] ↔ ∃ c ∈ components, c.loss? ≠ none := by
  rw [ne_eq, faults, List.filterMap_eq_nil_iff]
  simp only [fault?, Option.map_eq_none_iff, not_forall, exists_prop, ne_eq]

theorem head?_faults_eq_some_iff {components : List Component} {fault : Fault} :
    (faults components).head? = some fault ↔
      ∃ front c back reason, components = front ++ c :: back ∧ (∀ d ∈ front, d.loss? = none) ∧
        c.loss? = some reason ∧ fault = ⟨c.path, reason⟩ := by
  rw [faults, List.head?_filterMap, List.findSome?_eq_some_iff]
  simp only [fault?, Option.map_eq_none_iff, Option.map_eq_some_iff]
  constructor
  · rintro ⟨front, c, back, hs, ⟨reason, hc, rfl⟩, hf⟩
    exact ⟨front, c, back, reason, hs, hf, hc, rfl⟩
  · rintro ⟨front, c, back, reason, hs, hf, hc, rfl⟩
    exact ⟨front, c, back, hs, ⟨reason, hc, rfl⟩, hf⟩

theorem fault?_under (segment : Segment) (c : Component) :
    (c.under segment).fault? = c.fault?.map (.under segment) := by
  rw [fault?, fault?, Option.map_map]
  rfl

theorem faults_under (segment : Segment) (components : List Component) :
    faults (components.map (.under segment)) = (faults components).map (.under segment) := by
  rw [faults, List.filterMap_map, faults, List.map_filterMap]
  exact congrArg (List.filterMap · components) (funext (fault?_under segment))

theorem faults_numbered {α : Type} (segment : Nat → Segment) (components : α → List Component)
    (items : List α) :
    faults (numbered segment components items) =
      items.zipIdx.flatMap fun (item, i) => (faults (components item)).map (.under (segment i)) := by
  rw [faults, numbered, List.filterMap_flatMap]
  exact congrArg (List.flatMap · items.zipIdx) (funext fun (item, i) => faults_under (segment i) _)

end Component

namespace HostType

mutual

/-- All that a host value consists of, in the order of fields and elements; what contains something
    stands in front of it. -/
def components : (t : HostType) → t.Val → List Component
  | .scalar s, v => [⟨[], .scalar s, v⟩]
  | .pointer kind target, v => ⟨[], .pointer kind target, v⟩ :: target.components v
  | .optional target, v =>
    ⟨[], .optional target, v⟩ ::
      match v with
      | some v => target.components v
      | none => []
  | .sequence extent element, v =>
    ⟨[], .sequence extent element, v⟩ ::
      Component.numbered .index element.components (extent.toList v)
  | .record name fields, v => ⟨[], .record name fields, v⟩ :: fieldComponents fields v

def fieldComponents : (fields : List (Named HostType)) → Vals fields → List Component
  | [], _ => []
  | ⟨name, type⟩ :: fields, (v, vs) =>
    (type.components v).map (.under (.field name)) ++ fieldComponents fields vs

end

end HostType

def Argument.components (arguments : List Argument) : List Component :=
  Component.numbered .argument (fun a => a.type.components a.value) arguments

open Result

theorem Component.numbered_stopsAt {α β : Type} {components : α → List Component}
    {f : α → Result β} {items : List α}
    (h : ∀ item ∈ items, StopsAt .encoding (faults (components item)) (f item))
    (segment : Nat → Segment) :
    StopsAt .encoding (faults (numbered segment components items))
      (sequence (fun i _ => segment i) f 0 items) := by
  rw [faults_numbered]
  exact .sequence within_encoding h (fun i _ => segment i) 0

theorem Scalar.encodeNatural_stopsAt (n : Nat) :
    StopsAt .encoding (Component.faults [⟨[], .scalar .natural, n⟩]) (encodeNatural n) := by
  have hf : Component.fault? ⟨[], .scalar .natural, n⟩ =
      (naturalLoss? n).map fun reason => ⟨[], reason⟩ := rfl
  rw [Component.faults_singleton, hf, naturalLoss?, encodeNatural, Nat.one_shiftLeft]
  by_cases hn : n < 2 ^ 256
  · rw [if_pos hn, if_neg (Nat.not_le.2 hn)]
    exact .ok _
  · rw [if_neg hn, if_pos (Nat.not_lt.1 hn)]
    rfl

theorem Scalar.encode_stopsAt (s : Scalar) (v : s.Val) :
    StopsAt .encoding (Component.faults [⟨[], .scalar s, v⟩]) (s.encode v) := by
  cases s with
  | natural => exact encodeNatural_stopsAt v
  | _ => exact .ok _

namespace HostType

section Sequences

theorem faults_bytes (items : List (HostType.scalar (.uint .w8)).Val) :
    Component.faults (Component.numbered .index (HostType.scalar (.uint .w8)).components items) =
      [] := by
  rw [Component.faults_numbered, List.flatMap_eq_nil_iff]
  exact fun _ _ => rfl

variable {element : HostType} {encode : element.Val → Result Value}

theorem encodeSequence_stopsAt {size : Option Nat} {items : List element.Val}
    (h : ∀ x ∈ items, StopsAt .encoding (Component.faults (element.components x)) (encode x)) :
    StopsAt .encoding (Component.faults (Component.numbered .index element.components items))
      (encodeSequence element encode size items) := by
  have hc := Component.numbered_stopsAt h .index
  rw [← convertElements_eq] at hc
  cases size with
  | none =>
    by_cases hb : element.isByte = true
    · cases isByte_eq_true_iff.1 hb
      rw [faults_bytes]
      exact .ok _
    · rw [Bool.not_eq_true] at hb
      rw [encodeSequence_growing hb]
      exact hc.map
  | some size =>
    by_cases hb : element.isByte = true ∧ size = 32
    · obtain ⟨hb, rfl⟩ := hb
      cases isByte_eq_true_iff.1 hb
      rw [faults_bytes]
      exact .ok _
    · rw [encodeSequence_fixed hb]
      exact hc.map

end Sequences

mutual

/-- Conversion of a host value stops at the first of its parts that a payload cannot hold. -/
theorem encode_stopsAt (t : HostType) (v : t.Val) :
    StopsAt .encoding (Component.faults (t.components v)) (t.encode v) := by
  cases t with
  | scalar s => exact s.encode_stopsAt v
  | pointer kind target => exact encode_stopsAt target v
  | optional target =>
    cases v with
    | none => rfl
    | some v => exact encode_stopsAt target v
  | sequence extent element => exact encodeSequence_stopsAt fun x _ => encode_stopsAt element x
  | record name fields => exact (encodeFields_stopsAt fields v).map

theorem encodeFields_stopsAt (fields : List (Named HostType)) (vs : Vals fields) :
    StopsAt .encoding (Component.faults (fieldComponents fields vs)) (encodeFields fields vs) := by
  cases fields with
  | nil => exact .ok []
  | cons field fields =>
    obtain ⟨name, type⟩ := field
    obtain ⟨v, vs⟩ := vs
    rw [fieldComponents, Component.faults_append, Component.faults_under, encodeFields]
    exact .bind (.within within_encoding (.field name) (encode_stopsAt type v)) fun _ _ =>
      (encodeFields_stopsAt fields vs).map

end

end HostType

theorem Argument.toDatum_stopsAt (a : Argument) :
    StopsAt .encoding (Component.faults (a.type.components a.value)) a.toDatum := by
  refine (a.type.encode_stopsAt a.value).bind_ok fun value hv => ⟨value.datum, ?_⟩
  rw [HostType.check_encode hv]
  rfl

namespace Codec

theorem pack_stopsAt (arguments : List Argument) :
    StopsAt .encoding (Component.faults (Argument.components arguments)) (pack arguments) := by
  have hc := Component.numbered_stopsAt
    (fun a (_ : a ∈ arguments) => a.toDatum_stopsAt) .argument
  rw [← collect_eq] at hc
  exact hc.map

/-- Packing fails exactly if something in the arguments is an absent option or too wide, and leads to
    the first of them. Its check of what the arguments encode to never fails. -/
theorem pack_refuses (arguments : List Argument) :
    ((∃ failure, pack arguments = .error failure) ↔
        ∃ c ∈ Argument.components arguments, c.loss? ≠ none) ∧
      (∀ failure, pack arguments = .error failure ↔
        ∃ front c back reason, Argument.components arguments = front ++ c :: back ∧
          (∀ d ∈ front, d.loss? = none) ∧ c.loss? = some reason ∧
          failure = .encoding c.path reason) ∧
      ∀ a ∈ arguments, ∀ value, a.toValue = .ok value →
        value.check a.type.descriptor = .ok () := by
  refine ⟨?_, fun failure => ?_, fun a _ value h => HostType.check_encode h⟩
  · rw [(pack_stopsAt arguments).exists_error_iff, Component.faults_ne_nil_iff]
  · rw [(pack_stopsAt arguments).eq_error_iff]
    simp only [Component.head?_faults_eq_some_iff]
    constructor
    · rintro ⟨_, ⟨front, c, back, reason, hs, hf, hc, rfl⟩, rfl⟩
      exact ⟨front, c, back, reason, hs, hf, hc, rfl⟩
    · rintro ⟨front, c, back, reason, hs, hf, hc, rfl⟩
      exact ⟨_, ⟨front, c, back, reason, hs, hf, hc, rfl⟩, rfl⟩

/-- The absent option stands in front of the number that is too wide. -/
example :
    pack [⟨.scalar .bool, true⟩,
      ⟨.sequence .growing (.record "Vote" [⟨"passed", .optional (.scalar .bool)⟩,
          ⟨"weight", .pointer .boxed (.scalar .natural)⟩]),
        [(some true, Nat.pow 2 255, ()), (none, Nat.pow 2 256, ())]⟩] =
      .error (.encoding [.argument 1, .index 1, .field "passed"] .absent) := rfl

end Codec

end Attest
