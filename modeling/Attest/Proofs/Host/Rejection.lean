import Attest.Host.Conversion

set_option autoImplicit false

namespace Attest

namespace Result

def Injecting {α : Type} (result : Result α) : Prop :=
  ∀ failure, result = .error failure → ∃ path reason, failure = .injection path reason

def FailsBy {α : Type} (p : Failure → Prop) (result : Result α) : Prop :=
  ∀ failure, result = .error failure → p failure

/-- Whether a property holds of a value that is wrong itself and of a field that is missing, and one
    step further out wherever it holds. -/
structure Rejects (p : Failure → Prop) : Prop where
  here : ∀ reason, reason ≠ .missingField → p (.injection [] reason)
  missing : ∀ name, p (.injection [.field name] .missingField)
  within : ∀ segment failure, p failure → p (failure.within segment)

namespace FailsBy

variable {α β : Type} {p : Failure → Prop} {result : Result α}

theorem ok (a : α) : FailsBy p (.ok a) := nofun

theorem error {failure : Failure} (h : p failure) : FailsBy p (.error failure : Result α) := by
  rintro _ ⟨⟩
  exact h

theorem bind {f : α → Result β} (h : result.FailsBy p) (hf : ∀ a, (f a).FailsBy p) :
    (result >>= f).FailsBy p := by
  cases result with
  | ok a => exact hf a
  | error failure => exact error (h failure rfl)

theorem map {f : α → β} (h : result.FailsBy p) : FailsBy p (result.map f) := by
  cases result with
  | ok a => exact ok (f a)
  | error failure => exact error (h failure rfl)

variable (hp : Rejects p)

include hp

theorem mismatch (expected : Expected) (found : Value) :
    FailsBy p (found.mismatch expected : Result α) := error (hp.here _ nofun)

theorem within (segment : Segment) (h : result.FailsBy p) :
    (Result.within segment result).FailsBy p := by
  cases result with
  | ok a => exact ok a
  | error failure => exact error (hp.within segment failure (h failure rfl))

theorem convertElements {f : α → Result β} (h : ∀ a, (f a).FailsBy p) (position : Nat)
    (as : List α) : (convertElements f position as).FailsBy p := by
  induction as generalizing position with
  | nil => exact ok []
  | cons a as ih => exact (within hp _ (h a)).bind fun b => (ih (position + 1)).bind fun bs => ok _

end FailsBy

end Result

open Result

variable {p : Failure → Prop} (hp : Rejects p)

include hp

theorem Scalar.decode_failsBy (s : Scalar) (value : Value) : (s.decode value).FailsBy p := by
  have hw : ∀ value, (decodeWord value).FailsBy p := fun value => by
    cases value <;> first | exact .ok _ | exact .mismatch hp _ _
  have hb : ∀ value, (decodeBytes32 value).FailsBy p := fun value => by
    cases value with
    | fixedBytes data =>
      rw [decodeBytes32]
      split
      · exact .ok _
      · exact .error (hp.here _ nofun)
    | _ => exact .mismatch hp _ _
  cases s with
  | uint width =>
    cases value with
    | uint n =>
      rw [decode, decodeUint]
      split
      · exact .ok _
      · exact .error (hp.here _ nofun)
    | _ => exact .mismatch hp _ _
  | word => exact hw value
  | natural => exact (hw value).map
  | hash => exact hb value
  | uid => exact (hb value).map
  | _ => cases value <;> first | exact .ok _ | exact .mismatch hp _ _

namespace HostType

theorem decodeSequence_failsBy {element : HostType} {decode : Value → Result element.Val}
    (h : ∀ value, (decode value).FailsBy p) (size : Option Nat) (value : Value) :
    (decodeSequence element decode size value).FailsBy p := by
  have he : ∀ size value, (decodeElements element decode size value).FailsBy p := by
    intro size value
    unfold decodeElements
    split
    · split
      · exact .convertElements hp h 0 _
      · exact .error (hp.here _ nofun)
    · exact .convertElements hp h 0 _
    · exact .mismatch hp _ _
    · exact .mismatch hp _ _
  unfold decodeSequence
  split
  · cases value <;> first | exact .ok _ | exact .mismatch hp _ _
  · exact (Scalar.decode_failsBy hp .hash value).map
  · exact he _ value

theorem takeWith_failsBy {α : Type} {convert : Value → Result α}
    (h : ∀ value, (convert value).FailsBy p) (tuple : TupleFields) (name : String) :
    (tuple.takeWith convert name).1.FailsBy p := by
  unfold TupleFields.takeWith
  split
  · exact .error (hp.missing name)
  · exact .within hp _ (h _)

mutual

theorem decode_failsBy (t : HostType) (value : Value) : (t.decode value).FailsBy p := by
  cases t with
  | scalar s => exact s.decode_failsBy hp value
  | pointer kind target => exact decode_failsBy target value
  | optional target => exact (decode_failsBy target value).map
  | sequence extent element =>
    refine .bind (decodeSequence_failsBy hp (decode_failsBy element) extent.size? value) ?_
    intro items
    cases extent.ofList? items with
    | some whole => exact .ok whole
    | none => exact .error (hp.here _ nofun)
  | record name fields =>
    refine .bind ?_ (decodeFields_failsBy fields)
    cases value <;> first | exact .ok _ | exact .mismatch hp _ _

theorem decodeFields_failsBy (fields : List (Named HostType)) (tuple : TupleFields) :
    (decodeFields fields tuple).FailsBy p := by
  cases fields with
  | nil => exact .ok ()
  | cons field fields =>
    rw [decodeFields_cons]
    exact (takeWith_failsBy hp (decode_failsBy field.item) tuple field.name).bind fun v =>
      (decodeFields_failsBy fields _).bind fun vs => .ok _

end

omit hp

theorem decode_injecting (t : HostType) (value : Value) : (t.decode value).Injecting := by
  refine decode_failsBy ⟨fun reason _ => ⟨[], reason, rfl⟩, fun name => ⟨_, _, rfl⟩, ?_⟩ t value
  rintro segment _ ⟨path, reason, rfl⟩
  exact ⟨segment :: path, reason, rfl⟩

/-- No host type says of a value that the value itself is a missing field. -/
theorem decode_ne_missing (t : HostType) (value : Value) :
    t.decode value ≠ .error (.injection [] .missingField) := by
  intro h
  refine decode_failsBy (p := (· ≠ .injection [] .missingField)) ⟨?_, nofun, ?_⟩ t value _ h rfl
  · rintro reason hr ⟨⟩
    exact hr rfl
  · intro segment failure _ hf
    cases failure <;> cases hf

end HostType

end Attest
