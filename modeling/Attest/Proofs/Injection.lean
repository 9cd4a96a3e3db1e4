import Attest.Proofs.Host.Rejection
import Attest.Proofs.Result

set_option autoImplicit false

/-!
# Writing all slots or none

Committing alone would leave slots half written: it stops at a slot that refuses, with the slots
before it already changed. But every value is staged for its slot before the first commit, and a slot
takes back what it has staged. So commits do not fail, and what fails changes nothing.
-/
namespace Attest

namespace Slot

variable {slot target written other : Slot} {value : Value} {staged : Staged} {failure : Failure}

theorem stage_eq_ok_iff : slot.stage value = .ok staged ↔
    ∃ x, slot.type.decode value = .ok x ∧ ⟨slot.type, x⟩ = staged := by
  rw [stage, Result.bind_eq_ok]
  simp only [Result.pure_eq_ok]

theorem decode_of_stage_error (h : slot.stage value = .error failure) :
    slot.type.decode value = .error failure := by
  rw [stage] at h
  cases hd : slot.type.decode value with
  | error cause =>
    rw [hd] at h
    cases h
    rfl
  | ok x =>
    rw [hd] at h
    cases h

theorem commit_own (slot : Slot) (x : slot.type.Val) :
    slot.commit ⟨slot.type, x⟩ = (.ok (), { slot with value := x }) := dif_pos rfl

theorem commit_foreign (h : staged.type ≠ slot.type) :
    slot.commit staged = (.error (.injection [] .foreignType), slot) := dif_neg h

/-- Whether a slot is what another one becomes when a value is written to it. -/
def Takes (slot : Slot) (value : Value) (written : Slot) : Prop :=
  ∃ x, slot.type.decode value = .ok x ∧ written = { slot with value := x }

theorem Takes.type_eq (h : slot.Takes value written) : written.type = slot.type := by
  obtain ⟨x, -, rfl⟩ := h
  rfl

theorem Takes.unique (h : slot.Takes value written) (ho : slot.Takes value other) :
    written = other := by
  obtain ⟨x, hx, rfl⟩ := h
  obtain ⟨y, hy, rfl⟩ := ho
  rw [hx] at hy
  cases hy
  rfl

theorem Takes.exists_staged (h : slot.Takes value written) :
    ∃ staged, slot.stage value = .ok staged := by
  obtain ⟨x, hx, -⟩ := h
  exact ⟨_, stage_eq_ok_iff.2 ⟨x, hx, rfl⟩⟩

/-- A slot commits what another one has staged if it is of the same type, and then takes the value
    itself. -/
theorem commit_staged (h : slot.stage value = .ok staged) (ht : slot.type = target.type) :
    ∃ written, target.commit staged = (.ok (), written) ∧ target.Takes value written := by
  obtain ⟨x, hx, rfl⟩ := stage_eq_ok_iff.1 h
  obtain ⟨⟨type, old⟩, owned⟩ := target
  subst ht
  exact ⟨_, commit_own ⟨⟨slot.type, old⟩, owned⟩ x, x, hx, rfl⟩

end Slot

namespace Codec

variable {slots written : List Slot} {values : List Value} {staged : List Staged}
  {failure : Failure}

theorem stageAll_eq_ok_iff : stageAll slots values = .ok staged ↔
    List.Forall₂ (fun p s => Slot.stage p.1 p.2 = .ok s) (slots.zip values) staged :=
  Result.collect_eq_ok

theorem stageAll_eq_error (h : stageAll slots values = .error failure) :
    ∃ front slot value back path reason, slots.zip values = front ++ (slot, value) :: back ∧
      (∀ p ∈ front, ∃ written, p.1.Takes p.2 written) ∧
      slot.type.decode value = .error (.injection path reason) ∧
      failure = .injection (.argument front.length :: path) reason := by
  obtain ⟨front, ⟨slot, value⟩, back, cause, hz, hf, hr, rfl⟩ := Result.collect_eq_error h
  have ht : ∀ p ∈ front, ∃ written, p.1.Takes p.2 written := by
    intro p hp
    obtain ⟨staged, hs⟩ := hf p hp
    obtain ⟨written, -, ht⟩ := Slot.commit_staged hs rfl
    exact ⟨written, ht⟩
  have hd := Slot.decode_of_stage_error hr
  obtain ⟨path, reason, rfl⟩ := slot.type.decode_injecting value cause hd
  rw [Nat.zero_add]
  exact ⟨front, slot, value, back, path, reason, hz, ht, hd, rfl⟩

/-- Slots that commit what they have staged are written, whatever becomes of the slots behind. -/
theorem commitAll_append (position : Nat) (hl : values.length = slots.length)
    (h : List.Forall₂ (fun p s => Slot.stage p.1 p.2 = .ok s) (slots.zip values) staged)
    (behind : List Slot) (rest : List Staged) :
    ∃ written, List.Forall₂ (fun p w => p.1.Takes p.2 w) (slots.zip values) written ∧
      commitAll position (slots ++ behind) (staged ++ rest) =
        ((commitAll (position + slots.length) behind rest).1,
          written ++ (commitAll (position + slots.length) behind rest).2) := by
  induction slots generalizing values staged position with
  | nil =>
    cases h
    exact ⟨[], .nil, rfl⟩
  | cons slot slots ih =>
    cases values with
    | nil => cases hl
    | cons value values =>
      rw [List.zip_cons_cons] at h
      cases h with
      | cons hs hss =>
        obtain ⟨w, hw, ht⟩ := Slot.commit_staged hs rfl
        obtain ⟨ws, hts, hws⟩ := ih (position + 1) (Nat.succ.inj hl) hss
        refine ⟨w :: ws, .cons ht hts, ?_⟩
        rw [List.cons_append, List.cons_append, commitAll, hw]
        dsimp only [Result.within]
        rw [hws, List.length_cons, Nat.add_comm slots.length, ← Nat.add_assoc, List.cons_append]

example : commitAll 0 ([⟨⟨.scalar .bool, false⟩, rfl⟩] ++ [⟨⟨.scalar .string, ""⟩, rfl⟩])
    ([⟨.scalar .bool, true⟩] ++ [⟨.scalar .bool, true⟩]) =
      (.error (.injection [.argument 1] .foreignType),
        [⟨⟨.scalar .bool, true⟩, rfl⟩, ⟨⟨.scalar .string, ""⟩, rfl⟩]) := rfl

theorem commitAll_of_staged (hl : values.length = slots.length)
    (h : stageAll slots values = .ok staged) :
    ∃ written, commitAll 0 slots staged = (.ok (), written) ∧
      List.Forall₂ (fun p w => p.1.Takes p.2 w) (slots.zip values) written := by
  obtain ⟨written, ht, hc⟩ := commitAll_append 0 hl (stageAll_eq_ok_iff.1 h) [] []
  simp only [List.append_nil] at hc
  have he : commitAll (0 + slots.length) [] [] = (.ok (), []) := rfl
  rw [he, List.append_nil] at hc
  exact ⟨written, hc, ht⟩

theorem exists_staged (h : List.Forall₂ (fun p w => Slot.Takes p.1 p.2 w) (slots.zip values) written) :
    ∃ staged, stageAll slots values = .ok staged := by
  simp only [stageAll_eq_ok_iff]
  generalize slots.zip values = pairs at h ⊢
  induction h with
  | nil => exact ⟨[], .nil⟩
  | cons h _ ih =>
    obtain ⟨s, hs⟩ := h.exists_staged
    obtain ⟨rest, hr⟩ := ih
    exact ⟨s :: rest, .cons hs hr⟩

theorem inject_of_length_ne (h : values.length ≠ slots.length) :
    inject values slots = (.error (.arity slots.length values.length), slots) := if_pos h

theorem inject_of_rejected (hl : values.length = slots.length)
    (h : stageAll slots values = .error failure) :
    inject values slots = (.error failure, slots) := by
  rw [inject, if_neg (not_not.2 hl), h]

theorem inject_of_staged (hl : values.length = slots.length)
    (h : stageAll slots values = .ok staged) :
    inject values slots = commitAll 0 slots staged := by
  rw [inject, if_neg (not_not.2 hl), h]

/-- Injection succeeds exactly if each slot takes its value, and then each slot has. -/
theorem inject_eq_ok_iff_takes : inject values slots = (.ok (), written) ↔
    values.length = slots.length ∧
      List.Forall₂ (fun p w => p.1.Takes p.2 w) (slots.zip values) written := by
  constructor
  · intro h
    by_cases hl : values.length = slots.length
    · cases hs : stageAll slots values with
      | error failure =>
        rw [inject_of_rejected hl hs] at h
        cases h
      | ok staged =>
        obtain ⟨found, hc, ht⟩ := commitAll_of_staged hl hs
        rw [inject_of_staged hl hs, hc] at h
        cases h
        exact ⟨hl, ht⟩
    · rw [inject_of_length_ne hl] at h
      cases h
  · intro h
    obtain ⟨hl, ht⟩ := h
    obtain ⟨staged, hs⟩ := exists_staged ht
    obtain ⟨found, hc, hf⟩ := commitAll_of_staged hl hs
    have hu : Relator.RightUnique fun (p : Slot × Value) w => p.1.Takes p.2 w :=
      fun _ _ _ => Slot.Takes.unique
    rw [inject_of_staged hl hs, hc, hu.forall₂ hf ht]

/-- Injection fails on a wrong count and in staging, and never in a commit. -/
theorem inject_eq_error_iff : (inject values slots).1 = .error failure ↔
    (values.length ≠ slots.length ∧ failure = .arity slots.length values.length) ∨
      values.length = slots.length ∧ stageAll slots values = .error failure := by
  by_cases hl : values.length = slots.length
  · cases hs : stageAll slots values with
    | error cause =>
      rw [inject_of_rejected hl hs]
      simp [hl]
    | ok staged =>
      obtain ⟨written, hc, -⟩ := commitAll_of_staged hl hs
      rw [inject_of_staged hl hs, hc]
      simp [hl]
  · rw [inject_of_length_ne hl]
    simp [hl, eq_comm]

theorem inject_unchanged (h : (inject values slots).1 = .error failure) :
    (inject values slots).2 = slots := by
  rcases inject_eq_error_iff.1 h with ⟨hl, -⟩ | ⟨hl, hs⟩
  · rw [inject_of_length_ne hl]
  · rw [inject_of_rejected hl hs]

end Codec

end Attest
