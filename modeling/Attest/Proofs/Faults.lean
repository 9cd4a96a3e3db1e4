import Attest.Proofs.Result

set_option autoImplicit false

namespace Attest

structure Fault where
  path : Path
  reason : Reason

def Fault.under (segment : Segment) (fault : Fault) : Fault :=
  { fault with path := segment :: fault.path }

namespace Result

/-- Whether a result fails exactly if there are faults, and then with the first of them. -/
def StopsAt {α : Type} (failure : Path → Reason → Failure) (faults : List Fault)
    (result : Result α) : Prop :=
  match faults with
  | [] => ∃ a, result = .ok a
  | fault :: _ => result = .error (failure fault.path fault.reason)

theorem within_encoding (segment : Segment) (path : Path) (reason : Reason) :
    (Failure.encoding path reason).within segment = .encoding (segment :: path) reason := rfl

theorem within_injection (segment : Segment) (path : Path) (reason : Reason) :
    (Failure.injection path reason).within segment = .injection (segment :: path) reason := rfl

namespace StopsAt

variable {α β : Type} {failure : Path → Reason → Failure} {faults others : List Fault}
  {result : Result α}

theorem ok (a : α) : StopsAt failure [] (.ok a) := ⟨a, rfl⟩

theorem eq_error_iff (h : StopsAt failure faults result) {cause : Failure} :
    result = .error cause ↔
      ∃ fault, faults.head? = some fault ∧ cause = failure fault.path fault.reason := by
  cases faults with
  | nil =>
    obtain ⟨a, rfl⟩ := h
    exact ⟨nofun, nofun⟩
  | cons fault faults =>
    rw [StopsAt] at h
    rw [h]
    constructor
    · rintro ⟨⟩
      exact ⟨fault, rfl, rfl⟩
    · rintro ⟨_, ⟨⟩, rfl⟩
      rfl

theorem exists_error_iff (h : StopsAt failure faults result) :
    (∃ cause, result = .error cause) ↔ faults ≠ [] := by
  rw [Result.exists_error_iff]
  cases faults with
  | nil => exact ⟨fun hn => absurd h hn, fun hn => absurd rfl hn⟩
  | cons fault faults =>
    rw [StopsAt] at h
    rw [h]
    exact ⟨fun _ => nofun, fun _ => nofun⟩

theorem bind {f : α → Result β} (h : StopsAt failure faults result)
    (hf : ∀ a, result = .ok a → StopsAt failure others (f a)) :
    StopsAt failure (faults ++ others) (result >>= f) := by
  cases faults with
  | nil =>
    obtain ⟨a, rfl⟩ := h
    exact hf a rfl
  | cons fault faults =>
    rw [StopsAt] at h
    rw [h]
    rfl

theorem bind_ok {f : α → Result β} (h : StopsAt failure faults result)
    (hf : ∀ a, result = .ok a → ∃ b, f a = .ok b) : StopsAt failure faults (result >>= f) := by
  have hb : StopsAt failure (faults ++ []) (result >>= f) := h.bind hf
  rwa [List.append_nil] at hb

theorem map {f : α → β} (h : StopsAt failure faults result) :
    StopsAt failure faults (result.map f) := by
  have hb : StopsAt failure faults (result >>= fun a => .ok (f a)) := h.bind_ok fun a _ => ⟨f a, rfl⟩
  cases result <;> exact hb

variable (hw : ∀ segment path reason,
  (failure path reason).within segment = failure (segment :: path) reason)

include hw

theorem within (segment : Segment) (h : StopsAt failure faults result) :
    StopsAt failure (faults.map (.under segment)) (Result.within segment result) := by
  cases faults with
  | nil =>
    obtain ⟨a, rfl⟩ := h
    exact ok a
  | cons fault faults =>
    rw [StopsAt] at h
    rw [h]
    exact congrArg Except.error (hw segment fault.path fault.reason)

theorem sequence {faults : α → List Fault} {f : α → Result β} {as : List α}
    (h : ∀ a ∈ as, StopsAt failure (faults a) (f a)) (segment : Nat → α → Segment) (position : Nat) :
    StopsAt failure
      ((as.zipIdx position).flatMap fun (a, i) => (faults a).map (.under (segment i a)))
      (Result.sequence segment f position as) := by
  induction as generalizing position with
  | nil => exact ok []
  | cons a as ih =>
    rw [List.forall_mem_cons] at h
    rw [List.zipIdx_cons, List.flatMap_cons]
    exact (h.1.within hw (segment position a)).bind fun b _ => (ih h.2 (position + 1)).map

end StopsAt

end Result

end Attest
