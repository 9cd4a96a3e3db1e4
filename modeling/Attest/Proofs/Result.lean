import Mathlib.Data.List.Forall2
import Attest.Codec

set_option autoImplicit false

namespace Attest

section Lists

variable {α β : Type} {p : α → Prop} {f : α → β} {as : List α} {bs : List β}

theorem forall₂_and_map :
    List.Forall₂ (fun a b => p a ∧ f a = b) as bs ↔ (∀ a ∈ as, p a) ∧ as.map f = bs := by
  have he : List.Forall₂ (fun a b => f a = b) as bs ↔ as.map f = bs := by
    rw [← List.forall₂_map_left_iff, List.forall₂_eq_eq_eq]
  rw [List.forall₂_and_left, he]

theorem forall₂_and_map_flip :
    List.Forall₂ (fun b a => p a ∧ f a = b) bs as ↔ (∀ a ∈ as, p a) ∧ as.map f = bs :=
  ⟨fun h => forall₂_and_map.1 (.flip h), fun h => .flip (forall₂_and_map.2 h)⟩

theorem forall₂_exists_and_map {γ : Type} {r : γ → α → Prop} {cs : List γ} :
    List.Forall₂ (fun c b => ∃ a, r c a ∧ f a = b) cs bs ↔
      ∃ as, List.Forall₂ r cs as ∧ as.map f = bs := by
  induction cs generalizing bs with
  | nil => simp [eq_comm]
  | cons c cs ih =>
    rw [List.forall₂_cons_left_iff]
    simp only [ih, List.forall₂_cons_left_iff]
    constructor
    · intro h
      obtain ⟨_, _, ⟨a, ha, rfl⟩, ⟨as, hs, rfl⟩, rfl⟩ := h
      exact ⟨a :: as, ⟨a, as, ha, hs, rfl⟩, rfl⟩
    · intro h
      obtain ⟨_, ⟨a, as, ha, hs, rfl⟩, rfl⟩ := h
      exact ⟨f a, as.map f, ⟨a, ha, rfl⟩, ⟨as, hs, rfl⟩, rfl⟩

theorem eq_of_map_eq {others : List α} (hf : ∀ a ∈ as, ∀ b ∈ others, f a = f b → a = b)
    (h : as.map f = others.map f) : as = others := by
  induction as generalizing others with
  | nil =>
    cases others with
    | nil => rfl
    | cons b others => cases h
  | cons a as ih =>
    cases others with
    | nil => cases h
    | cons b others =>
      rw [List.map_cons, List.map_cons, List.cons.injEq] at h
      rw [List.forall_mem_cons] at hf
      have ha : a = b := hf.1 b (List.mem_cons_self ..) h.1
      have hs : as = others :=
        ih (fun x hx y hy => hf.2 x hx y (List.mem_cons_of_mem _ hy)) h.2
      rw [ha, hs]

end Lists

namespace Result

variable {α β : Type}

theorem bind_eq_ok {ε : Type} {x : Except ε α} {f : α → Except ε β} {b : β} :
    (x >>= f) = .ok b ↔ ∃ a, x = .ok a ∧ f a = .ok b := by
  cases x <;> simp [bind, Except.bind]

theorem map_eq_ok {x : Result α} {f : α → β} {b : β} :
    x.map f = .ok b ↔ ∃ a, x = .ok a ∧ f a = b := by
  cases x <;> simp [Except.map]

theorem map_eq_error {x : Result α} {f : α → β} {failure : Failure} :
    x.map f = .error failure ↔ x = .error failure := by
  cases x <;> simp [Except.map]

theorem exists_error_iff {x : Result α} : (∃ failure, x = .error failure) ↔ ¬ ∃ a, x = .ok a := by
  cases x <;> simp

theorem pure_eq_ok {ε : Type} {a b : α} : (pure a : Except ε α) = .ok b ↔ a = b := by
  simp [pure, Except.pure]

theorem within_eq_ok {segment : Segment} {x : Result α} {a : α} :
    Result.within segment x = .ok a ↔ x = .ok a := by
  cases x <;> simp [Result.within]

theorem both_eq_ok {γ : Type} {x : Result α} {y : Result β} {f : α → β → γ} {c : γ} :
    (do
      let a ← x
      let b ← y
      return f a b) = .ok c ↔ ∃ a b, x = .ok a ∧ y = .ok b ∧ c = f a b := by
  simp only [bind_eq_ok, pure_eq_ok]
  constructor
  · intro h
    obtain ⟨a, ha, b, hb, rfl⟩ := h
    exact ⟨a, b, ha, hb, rfl⟩
  · intro h
    obtain ⟨a, b, ha, hb, rfl⟩ := h
    exact ⟨a, ha, b, hb, rfl⟩

variable {f : α → Result β} {as : List α} {bs : List β}

theorem mapM_eq_ok : as.mapM f = .ok bs ↔ List.Forall₂ (fun a b => f a = .ok b) as bs := by
  induction as generalizing bs with
  | nil =>
    rw [List.mapM_nil, pure_eq_ok, List.forall₂_nil_left_iff, eq_comm]
  | cons a as ih =>
    rw [List.mapM_cons, both_eq_ok, List.forall₂_cons_left_iff]
    simp only [ih]

theorem mapM_singleton (f : α → Result β) (a : α) : [a].mapM f = (f a).map fun b => [b] := by
  rw [List.mapM_cons]
  cases f a <;> rfl

/-- Converts in order; a failure is placed one step further out, where the item it is about stands. -/
def sequence (segment : Nat → α → Segment) (f : α → Result β) (position : Nat) :
    List α → Result (List β)
  | [] => .ok []
  | a :: as => do
    let b ← Result.within (segment position a) (f a)
    let bs ← sequence segment f (position + 1) as
    return b :: bs

theorem convertElements_eq (f : α → Result β) (position : Nat) (as : List α) :
    convertElements f position as = sequence (fun i _ => .index i) f position as := by
  induction as generalizing position with
  | nil => rfl
  | cons a as ih => rw [convertElements, sequence, ih]

theorem collect_eq (f : α → Result β) (position : Nat) (as : List α) :
    Codec.collect f position as = sequence (fun i _ => .argument i) f position as := by
  induction as generalizing position with
  | nil => rfl
  | cons a as ih => rw [Codec.collect, sequence, ih]

theorem checkElements_eq (check : Value → Result Unit) (position : Nat) (values : List Value) :
    Value.checkElements check position values =
      (sequence (fun i _ => .index i) check position values).map fun _ => () := by
  induction values generalizing position with
  | nil => rfl
  | cons v values ih =>
    rw [Value.checkElements, sequence, ih]
    cases Result.within (.index position) (check v) with
    | error failure => rfl
    | ok _ => cases sequence (fun i _ => .index i) check (position + 1) values <;> rfl

theorem sequence_eq_ok {segment : Nat → α → Segment} {position : Nat} :
    sequence segment f position as = .ok bs ↔ List.Forall₂ (fun a b => f a = .ok b) as bs := by
  induction as generalizing position bs with
  | nil => simp [sequence, eq_comm]
  | cons a as ih =>
    rw [sequence, both_eq_ok, List.forall₂_cons_left_iff]
    simp only [within_eq_ok, ih]

theorem sequence_eq_error_iff {segment : Nat → α → Segment} {position : Nat} {failure : Failure} :
    sequence segment f position as = .error failure ↔
      ∃ front a back cause, as = front ++ a :: back ∧ (∀ x ∈ front, ∃ b, f x = .ok b) ∧
        f a = .error cause ∧ failure = cause.within (segment (position + front.length) a) := by
  constructor
  · intro h
    induction as generalizing position with
    | nil => cases h
    | cons a as ih =>
      rw [sequence] at h
      cases ha : f a with
      | error cause =>
        rw [ha] at h
        cases h
        exact ⟨[], a, as, cause, rfl, nofun, ha, rfl⟩
      | ok b =>
        cases hr : sequence segment f (position + 1) as with
        | error cause =>
          rw [ha, hr] at h
          cases h
          obtain ⟨front, x, back, cause, rfl, hf, hx, rfl⟩ := ih hr
          refine ⟨a :: front, x, back, cause, rfl, List.forall_mem_cons.2 ⟨⟨b, ha⟩, hf⟩, hx, ?_⟩
          rw [List.length_cons, Nat.add_assoc, Nat.add_comm 1]
        | ok bs =>
          rw [ha, hr] at h
          cases h
  · intro h
    obtain ⟨front, a, back, cause, rfl, hf, ha, rfl⟩ := h
    induction front generalizing position with
    | nil =>
      rw [List.nil_append, sequence, ha]
      rfl
    | cons x front ih =>
      rw [List.forall_mem_cons] at hf
      obtain ⟨⟨b, hx⟩, hf⟩ := hf
      rw [List.cons_append, sequence, hx, ih hf, List.length_cons, Nat.add_assoc, Nat.add_comm 1]
      rfl

theorem convertElements_eq_ok {position : Nat} :
    convertElements f position as = .ok bs ↔ List.Forall₂ (fun a b => f a = .ok b) as bs := by
  rw [convertElements_eq, sequence_eq_ok]

theorem collect_eq_ok {position : Nat} :
    Codec.collect f position as = .ok bs ↔ List.Forall₂ (fun a b => f a = .ok b) as bs := by
  rw [collect_eq, sequence_eq_ok]

theorem collect_eq_error {position : Nat} {failure : Failure}
    (h : Codec.collect f position as = .error failure) :
    ∃ front a back cause, as = front ++ a :: back ∧ (∀ x ∈ front, ∃ b, f x = .ok b) ∧
      f a = .error cause ∧ failure = cause.within (.argument (position + front.length)) := by
  rw [collect_eq] at h
  exact sequence_eq_error_iff.1 h

end Result

end Attest
