import Attest.Proofs.Codec
import Attest.Proofs.Faults
import Attest.Proofs.Host.Conversion

set_option autoImplicit false

/-!
# Numbers that do not fit

A payload can hold a number that is wider than its type. The check before encoding walks a value by
position, and the conversion into a host value walks it by name; on a decoded value both stop at the
first number that does not fit, with one path and one reason, and at nothing else.
-/
namespace Attest

structure Narrow where
  path : Path
  value : Word
  width : UintWidth

namespace Narrow

def overflows (n : Narrow) : Bool := decide (2 ^ n.width.bits ≤ n.value.toNat)

def reason (n : Narrow) : Reason := .overflow n.value n.width

def under (segment : Segment) (n : Narrow) : Narrow := { n with path := segment :: n.path }

def faults (numbers : List Narrow) : List Fault :=
  (numbers.filter overflows).map fun n => ⟨n.path, n.reason⟩

theorem faults_append (numbers others : List Narrow) :
    faults (numbers ++ others) = faults numbers ++ faults others := by
  rw [faults, List.filter_append, List.map_append, faults, faults]

theorem faults_under (segment : Segment) (numbers : List Narrow) :
    faults (numbers.map (.under segment)) = (faults numbers).map (.under segment) := by
  rw [faults, List.filter_map, List.map_map, faults, List.map_map]
  rfl

theorem faults_flatMap {α : Type} (f : α → List Narrow) (as : List α) :
    faults (as.flatMap f) = as.flatMap fun a => faults (f a) := by
  rw [faults, List.filter_flatMap, List.map_flatMap]
  rfl

end Narrow

namespace Value

mutual

/-- The numbers of narrow types in a value of a type, in the order of fields and elements. -/
def narrows : Descriptor → Value → List Narrow
  | .uint width, .uint n => [⟨[], n, width⟩]
  | .tuple types, .tuple fields => fieldNarrows types fields
  | .fixedArray _ element, .fixedArray values | .array element, .array values =>
    values.zipIdx.flatMap fun (value, i) => (narrows element value).map (.under (.index i))
  | _, _ => []

def fieldNarrows : List Declaration → List (Named Value) → List Narrow
  | ⟨name, type⟩ :: types, ⟨_, value⟩ :: fields =>
    (narrows type value).map (.under (.field name)) ++ fieldNarrows types fields
  | _, _ => []

end

def overflow? (type : Descriptor) (value : Value) : Option Narrow :=
  (value.narrows type).find? Narrow.overflows

end Value

namespace Result

/-- Whether a result fails exactly if one of some numbers overflows, and then with the first. -/
def Reports {α : Type} (failure : Path → Reason → Failure) (numbers : List Narrow)
    (result : Result α) : Prop :=
  match numbers.find? Narrow.overflows with
  | none => ∃ a, result = .ok a
  | some n => result = .error (failure n.path n.reason)

namespace Reports

variable {α β : Type} {failure : Path → Reason → Failure} {numbers others : List Narrow}
  {result : Result α}

theorem iff_stopsAt : Reports failure numbers result ↔
    StopsAt failure (Narrow.faults numbers) result := by
  rw [Reports, Narrow.faults, ← List.head?_filter]
  cases numbers.filter Narrow.overflows <;> exact Iff.rfl

theorem ok (a : α) : Reports failure [] (.ok a) := ⟨a, rfl⟩

theorem narrow (n : Word) (width : UintWidth) (a : α) :
    Reports failure [⟨[], n, width⟩] (if n.toNat < 1 <<< width.bits then .ok a
      else .error (failure [] (.overflow n width))) := by
  rw [Nat.one_shiftLeft, Reports, List.find?_singleton]
  by_cases hn : n.toNat < 2 ^ width.bits
  · have ho : Narrow.overflows ⟨[], n, width⟩ = false := decide_eq_false (Nat.not_le.2 hn)
    rw [ho, if_pos hn]
    exact ⟨a, rfl⟩
  · have ho : Narrow.overflows ⟨[], n, width⟩ = true := decide_eq_true (Nat.not_lt.1 hn)
    rw [ho, if_neg hn]
    rfl

theorem bind {f : α → Result β} (h : Reports failure numbers result)
    (hf : ∀ a, result = .ok a → Reports failure others (f a)) :
    Reports failure (numbers ++ others) (result >>= f) := by
  rw [iff_stopsAt, Narrow.faults_append]
  exact (iff_stopsAt.1 h).bind fun a ha => iff_stopsAt.1 (hf a ha)

theorem bind_ok {f : α → Result β} (h : Reports failure numbers result)
    (hf : ∀ a, result = .ok a → ∃ b, f a = .ok b) : Reports failure numbers (result >>= f) :=
  iff_stopsAt.2 ((iff_stopsAt.1 h).bind_ok hf)

theorem map {f : α → β} (h : Reports failure numbers result) :
    Reports failure numbers (result.map f) :=
  iff_stopsAt.2 (iff_stopsAt.1 h).map

variable (hw : ∀ segment path reason,
  (failure path reason).within segment = failure (segment :: path) reason)

include hw

theorem within (segment : Segment) (h : Reports failure numbers result) :
    Reports failure (numbers.map (.under segment)) (Result.within segment result) := by
  rw [iff_stopsAt, Narrow.faults_under]
  exact (iff_stopsAt.1 h).within hw segment

theorem convertElements {narrows : Value → List Narrow} {convert : Value → Result α}
    {values : List Value} (h : ∀ v ∈ values, Reports failure (narrows v) (convert v)) :
    Reports failure
      (values.zipIdx.flatMap fun (v, i) => (narrows v).map (.under (.index i)))
      (convertElements convert 0 values) := by
  rw [iff_stopsAt, Narrow.faults_flatMap, convertElements_eq]
  simp only [Narrow.faults_under]
  exact .sequence hw (fun v hv => iff_stopsAt.1 (h v hv)) (fun i _ => .index i) 0

end Reports

end Result

open Result

section Checking

theorem checkElements_reports {element : Descriptor} {values : List Value}
    (h : ∀ v ∈ values, Reports .encoding (v.narrows element) (v.check element)) :
    Reports .encoding
      (values.zipIdx.flatMap fun (v, i) => (v.narrows element).map (.under (.index i)))
      (Value.checkElements (Value.check element) 0 values) := by
  rw [checkElements_eq, ← convertElements_eq]
  exact (Reports.convertElements within_encoding h).map

mutual

theorem check_reports (type : Descriptor) {value : Value} (h : HasType type value) :
    Reports .encoding (value.narrows type) (value.check type) := by
  cases h with
  | uint width n => exact .narrow n width ()
  | fixedBytes hl =>
    rw [Value.check, if_pos hl]
    exact .ok ()
  | @tuple types fields h =>
    rw [Value.check, if_pos h.length_eq]
    exact checkFields_reports types h
  | @fixedArray size element values hl h =>
    rw [Value.check, if_pos hl]
    exact checkElements_reports fun v hv => check_reports element (h v hv)
  | @array element values h => exact checkElements_reports fun v hv => check_reports element (h v hv)
  | _ => exact .ok ()

theorem checkFields_reports (types : List Declaration) {fields : List (Named Value)}
    (h : HaveTypes types fields) :
    Reports .encoding (Value.fieldNarrows types fields) (Value.checkFields types fields) := by
  cases h with
  | nil => exact .ok ()
  | @cons name type value types fields hv hs =>
    exact .bind (.within within_encoding (.field name) (check_reports type hv)) fun _ _ =>
      checkFields_reports types hs

end

end Checking

section Decoding

theorem Scalar.exists_decodeBytes32 {data : Bytes} (hl : data.length = 32) :
    ∃ v, decodeBytes32 (.fixedBytes data) = .ok v :=
  ⟨⟨data.toArray, by simpa using hl⟩, decodeBytes32_eq_ok_iff.2 rfl⟩

theorem Scalar.decode_reports (s : Scalar) {value : Value} (h : HasType s.descriptor value) :
    Reports .injection (value.narrows s.descriptor) (s.decode value) := by
  cases s with
  | uint width =>
    cases h with
    | uint _ n => exact .narrow n width _
  | hash =>
    cases h with
    | fixedBytes hl => exact exists_decodeBytes32 hl
  | uid =>
    cases h with
    | fixedBytes hl =>
      have hb : Reports .injection [] (decodeBytes32 (.fixedBytes _)) := exists_decodeBytes32 hl
      exact hb.map
  | _ => cases h; exact .ok _

namespace HostType

variable {element : HostType} {decode : Value → Result element.Val}

theorem decodeSequence_reports {size : Option Nat} {value : Value}
    (hc : ∀ v, HasType element.descriptor v →
      Reports .injection (v.narrows element.descriptor) (decode v))
    (h : HasType (sequenceDescriptor element.isByte element.descriptor size) value) :
    Reports .injection
      (value.narrows (sequenceDescriptor element.isByte element.descriptor size))
      (decodeSequence element decode size value) := by
  cases size with
  | none =>
    by_cases hb : element.isByte = true
    · cases isByte_eq_true_iff.1 hb
      cases h with
      | bytes data => exact .ok _
    · rw [Bool.not_eq_true] at hb
      rw [decodeSequence_growing hb]
      rw [sequenceDescriptor, hb] at h ⊢
      cases h with
      | @array _ values hv => exact .convertElements within_injection fun v hm => hc v (hv v hm)
  | some size =>
    by_cases hb : element.isByte = true ∧ size = 32
    · obtain ⟨hb, rfl⟩ := hb
      cases isByte_eq_true_iff.1 hb
      cases h with
      | fixedBytes hl =>
        have hd : Reports .injection [] (Scalar.decodeBytes32 (.fixedBytes _)) :=
          Scalar.exists_decodeBytes32 hl
        exact hd.map
    · rw [decodeSequence_fixed hb]
      rw [sequenceDescriptor, if_neg hb] at h ⊢
      cases h with
      | @fixedArray _ _ values hl hv =>
        rw [decodeElements, if_pos hl]
        exact .convertElements within_injection fun v hm => hc v (hv v hm)

theorem length_of_decodeSequence {size : Nat} {value : Value} {items : List element.Val}
    (h : decodeSequence element decode (some size) value = .ok items) : items.length = size := by
  by_cases hb : element.isByte = true ∧ size = 32
  · obtain ⟨hb, rfl⟩ := hb
    cases isByte_eq_true_iff.1 hb
    obtain ⟨bytes, -, rfl⟩ := Result.map_eq_ok.1 h
    exact (List.length_map _).trans Vector.length_toList
  · rw [decodeSequence_fixed hb] at h
    cases value with
    | fixedArray values =>
      rw [decodeElements] at h
      split at h
      · rename_i hl
        rw [← hl, (Result.convertElements_eq_ok.1 h).length_eq]
      · cases h
    | _ => cases h

theorem exists_ofList? {extent : Extent} {value : Value} {items : List element.Val}
    (h : decodeSequence element decode extent.size? value = .ok items) :
    ∃ whole, extent.ofList? items = some whole := by
  cases extent with
  | fixed size => exact ⟨_, dif_pos (length_of_decodeSequence h)⟩
  | _ => exact ⟨items, rfl⟩

mutual

/-- A host type rejects a value of its descriptor only for the first number that does not fit. -/
theorem decode_reports (t : HostType) {value : Value} (h : HasType t.descriptor value) :
    Reports .injection (value.narrows t.descriptor) (t.decode value) := by
  cases t with
  | scalar s => exact s.decode_reports h
  | pointer kind target => exact decode_reports target h
  | optional target => exact (decode_reports target h).map
  | sequence extent element =>
    have hs := decodeSequence_reports (fun v hv => decode_reports element hv) h
    refine hs.bind_ok fun items hi => ?_
    obtain ⟨whole, hw⟩ := exists_ofList? hi
    rw [hw]
    exact ⟨whole, rfl⟩
  | record name fields =>
    cases h with
    | tuple h => exact decodeFields_reports fields h

theorem decodeFields_reports (fields : List (Named HostType)) {tuple : List (Named Value)}
    (h : HaveTypes (fieldDescriptors fields) tuple) :
    Reports .injection (Value.fieldNarrows (fieldDescriptors fields) tuple)
      (decodeFields fields ⟨tuple⟩) := by
  cases fields with
  | nil =>
    cases h
    exact .ok ()
  | cons field fields =>
    obtain ⟨name, type⟩ := field
    cases h with
    | @cons _ _ value _ rest hv hs =>
      -- The names stand in the order of the fields, so even a repeated one is found in front.
      rw [decodeFields_cons, TupleFields.take_of_extract? (extract?_cons name value rest)]
      exact .bind (.within within_injection (.field name) (decode_reports type hv)) fun v _ =>
        (decodeFields_reports fields hs).map

end

/-- On what a payload decodes to, a host type fails exactly where the check of its descriptor does:
    at the first number that does not fit, at one path and for one reason. -/
theorem decode_agrees_check {policy : Policy} {data : Bytes} {value : Value} (t : HostType)
    (h : Codec.decodeValues policy [t.descriptor] data = .ok [value]) :
    ((∃ v, t.decode value = .ok v) ↔ value.check t.descriptor = .ok ()) ∧
      (value.check t.descriptor = .ok () ↔ value.overflow? t.descriptor = none) ∧
      ∀ failure, t.decode value = .error failure →
        ∃ n, value.overflow? t.descriptor = some n ∧
          failure = .injection n.path n.reason ∧
          value.check t.descriptor = .error (.encoding n.path n.reason) := by
  have ht : HasType t.descriptor value := by
    cases (Codec.decodeValues_sound h).1 with
    | cons ht _ => exact ht
  have hd := t.decode_reports ht
  have hc := check_reports t.descriptor ht
  rw [Reports] at hd hc
  rw [Value.overflow?]
  cases hn : (value.narrows t.descriptor).find? Narrow.overflows with
  | none =>
    rw [hn] at hd hc
    obtain ⟨⟨⟩, hc⟩ := hc
    obtain ⟨v, hd⟩ := hd
    rw [hd, hc]
    exact ⟨⟨fun _ => rfl, fun _ => ⟨v, rfl⟩⟩, ⟨fun _ => rfl, fun _ => rfl⟩, nofun⟩
  | some n =>
    rw [hn] at hd hc
    rw [hd, hc]
    refine ⟨⟨nofun, nofun⟩, ⟨nofun, nofun⟩, fun failure hf => ?_⟩
    cases hf
    exact ⟨n, rfl, rfl, rfl⟩

def countType : HostType :=
  .record "Count" [⟨"votes", .sequence .growing (.record "Vote" [⟨"weight", .scalar (.uint .w8)⟩])⟩,
    ⟨"round", .scalar (.uint .w16)⟩]

/-- The second weight does not fit, and the number behind it does not fit either. -/
def countValue : Value :=
  .tuple [⟨"votes", .array [.tuple [⟨"weight", .uint 255⟩], .tuple [⟨"weight", .uint 300⟩]]⟩,
    ⟨"round", .uint 65536⟩]

set_option maxRecDepth 4000 in
theorem decode_agrees_check_count :
    Codec.decodeValues {} [countType.descriptor] (Abi.encode [countValue.datum]) =
        .ok [countValue] ∧
      countType.decode countValue =
        .error (.injection [.field "votes", .index 1, .field "weight"] (.overflow 300 .w8)) ∧
      countValue.check countType.descriptor =
        .error (.encoding [.field "votes", .index 1, .field "weight"] (.overflow 300 .w8)) := by
  have hv : Codec.decodeValues {} [countType.descriptor] (Abi.encode [countValue.datum]) =
      .ok [countValue] := rfl
  have hd : countType.decode countValue =
      .error (.injection [.field "votes", .index 1, .field "weight"] (.overflow 300 .w8)) := rfl
  obtain ⟨n, -, hf, hc⟩ := (countType.decode_agrees_check hv).2.2 _ hd
  obtain ⟨hp, hr⟩ := Failure.injection.inj hf
  rw [← hp, ← hr] at hc
  exact ⟨hv, hd, hc⟩

end HostType

end Decoding

end Attest
