import Attest.Proofs.Injection
import Attest.Session

set_option autoImplicit false

namespace Attest

/-- Whether a step names no slot twice among those that it writes. -/
def Step.Distinct {n : Nat} : Step n → Prop
  | .unpack slots _ | .scan slots _ | .inject slots _ => slots.Nodup
  | .pack _ | .schema _ | .commit .. => True

def Report.Fails : Report → Prop
  | .packed (.error _) | .written (.error _) | .unstaged _ | .committed (.error _) => True
  | .packed (.ok _) | .schema _ | .written (.ok _) | .committed (.ok _) => False

namespace Session

variable {n : Nat}

/-- What writing values to slots comes to. Each of the slots takes its value and all others stay,
    or nothing changes and the failure tells the first slot that rejects its value. -/
inductive Writes (before : Session n) (slots : List (Fin n)) (values : List Value) :
    Result Unit → Session n → Prop
  | all {after : Session n} (hl : values.length = slots.length)
    (hw : ∀ p ∈ slots.zip values, (before.get p.1).Takes p.2 (after.get p.1))
    (ho : ∀ i, i ∉ slots → after.get i = before.get i) : Writes before slots values (.ok ()) after
  | arity (hl : values.length ≠ slots.length) :
    Writes before slots values (.error (.arity slots.length values.length)) before
  | rejected {front back : List (Fin n × Value)} {i : Fin n} {value : Value} {path : Path}
    {reason : Reason} (hz : slots.zip values = front ++ (i, value) :: back)
    (hf : ∀ p ∈ front, ∃ written, (before.get p.1).Takes p.2 written)
    (hr : (before.get i).type.decode value = .error (.injection path reason)) :
    Writes before slots values (.error (.injection (.argument front.length :: path) reason)) before

inductive Effect (policy : Policy) (before : Session n) : Step n → Report → Session n → Prop
  | pack (slots : List (Fin n)) : Effect policy before (.pack slots)
    (.packed (Codec.pack ((before.select slots).map Slot.toArgument))) before
  | schema (slots : List (Fin n)) : Effect policy before (.schema slots)
    (.schema (Codec.schemaOf ((before.select slots).map Slot.toArgument))) before
  | inject {slots : List (Fin n)} {values : List Value} {outcome : Result Unit} {after : Session n}
    (h : Writes before slots values outcome after) :
    Effect policy before (.inject slots values) (.written outcome) after
  | unpack {slots : List (Fin n)} {data : Bytes} {values : List Value} {outcome : Result Unit}
    {after : Session n}
    (hd : Codec.decodeValues policy ((before.select slots).map (·.type.descriptor)) data =
      .ok values) (h : Writes before slots values outcome after) :
    Effect policy before (.unpack slots data) (.written outcome) after
  | undecoded {slots : List (Fin n)} {data : Bytes} {failure : Failure}
    (hd : Codec.decodeValues policy ((before.select slots).map (·.type.descriptor)) data =
      .error failure) :
    Effect policy before (.unpack slots data) (.written (.error failure)) before
  | scan {slots : List (Fin n)} {attestation : Attestation} {report : Report} {after : Session n}
    (h : Effect policy before (.unpack slots attestation.data) report after) :
    Effect policy before (.scan slots attestation) report after
  | unstaged {source target : Fin n} {value : Value} {failure : Failure}
    (h : (before.get source).type.decode value = .error failure) :
    Effect policy before (.commit source target value) (.unstaged failure) before
  | foreign {source target : Fin n} {value : Value} {x : (before.get source).type.Val}
    (hs : (before.get source).type.decode value = .ok x)
    (ht : (before.get source).type ≠ (before.get target).type) :
    Effect policy before (.commit source target value)
      (.committed (.error (.injection [] .foreignType))) before
  | commit {source target : Fin n} {value : Value} {after : Session n}
    (ht : (before.get source).type = (before.get target).type)
    (hw : (before.get target).Takes value (after.get target))
    (ho : ∀ i, i ≠ target → after.get i = before.get i) :
    Effect policy before (.commit source target value) (.committed (.ok ())) after

inductive Along (p : Session n → Step n → Report → Session n → Prop) :
    Session n → List (Step n) → List (Report × Session n) → Prop
  | nil (session : Session n) : Along p session [] []
  | cons {before after : Session n} {step : Step n} {report : Report} {steps : List (Step n)}
    {rest : List (Report × Session n)} (h : p before step report after)
    (hs : Along p after steps rest) : Along p before (step :: steps) ((report, after) :: rest)

section Placing

variable {session : Session n} {positions : List (Fin n)} {written : List Slot}

theorem get_set_self (session : Session n) (i : Fin n) (slot : Slot) :
    Vector.get (session.set i slot i.isLt) i = slot := Vector.getElem_set_self i.isLt

theorem get_set_of_ne (session : Session n) {i j : Fin n} (h : j ≠ i) (slot : Slot) :
    Vector.get (session.set i slot i.isLt) j = session.get j :=
  Vector.getElem_set_ne i.isLt j.isLt fun hv => h (Fin.ext hv.symm)

theorem set_get_self (session : Session n) (i : Fin n) :
    session.set i (session.get i) i.isLt = session := Vector.set_getElem_self i.isLt

theorem get_place_of_not_mem {i : Fin n} (h : i ∉ positions) :
    (session.place positions written).get i = session.get i := by
  induction positions generalizing session written with
  | nil => rfl
  | cons j positions ih =>
    rw [List.mem_cons, not_or] at h
    cases written with
    | nil => rfl
    | cons slot written => rw [place, ih h.2, get_set_of_ne session h.1]

theorem select_place (hd : positions.Nodup) (hl : written.length = positions.length) :
    (session.place positions written).select positions = written := by
  induction positions generalizing session written with
  | nil => exact (List.eq_nil_of_length_eq_zero hl).symm
  | cons i positions ih =>
    cases written with
    | nil => cases hl
    | cons slot written =>
      rw [List.nodup_cons] at hd
      -- No later slot is placed where this one is.
      have hi : (session.place (i :: positions) (slot :: written)).get i = slot := by
        rw [place, get_place_of_not_mem hd.1, get_set_self]
      rw [select, List.map_cons, hi]
      exact congrArg (slot :: ·) (ih hd.2 (by simpa using hl))

theorem place_select (session : Session n) (positions : List (Fin n)) :
    session.place positions (session.select positions) = session := by
  induction positions with
  | nil => rfl
  | cons i positions ih =>
    rw [select, List.map_cons, place, set_get_self]
    exact ih

end Placing

section Steps

variable {policy : Policy} {before after : Session n} {step : Step n} {report : Report}
  {slots : List (Fin n)} {values : List Value} {outcome : Result Unit}

theorem zip_select (session : Session n) (slots : List (Fin n)) (values : List Value) :
    (session.select slots).zip values =
      (slots.zip values).map fun p => (session.get p.1, p.2) := by
  rw [select, List.zip_map_left]
  rfl

theorem takes_place {session : Session n} {written : List Slot} (hd : slots.Nodup)
    (hl : values.length = slots.length)
    (h : List.Forall₂ (fun p w => p.1.Takes p.2 w) ((session.select slots).zip values) written) :
    ∀ p ∈ slots.zip values,
      (session.get p.1).Takes p.2 ((session.place slots written).get p.1) := by
  rw [zip_select, List.forall₂_map_left_iff] at h
  have hw : written.length = slots.length := by
    rw [← h.length_eq, List.length_zip, hl, Nat.min_self]
  have hf : (slots.zip values).map Prod.fst = slots := List.map_fst_zip (Nat.le_of_eq hl.symm)
  have hs : (slots.zip values).map (fun p => (session.place slots written).get p.1) = written := by
    have hs : (session.place slots written).select slots = written := select_place hd hw
    rwa [select, ← hf, List.map_map, hf] at hs
  rw [← hs, List.forall₂_map_right_iff, List.forall₂_same] at h
  exact h

theorem inject_writes (session : Session n) (hd : slots.Nodup) (values : List Value) :
    Writes session slots values (Codec.inject values (session.select slots)).1
      (session.place slots (Codec.inject values (session.select slots)).2) := by
  have hn : (session.select slots).length = slots.length := List.length_map _
  rcases hi : Codec.inject values (session.select slots) with ⟨failure | done, written⟩
  · -- The slots have come back as they were given, so placing them changes nothing.
    have he := congrArg Prod.fst hi
    have hu : written = session.select slots := by rw [← Codec.inject_unchanged he, hi]
    rw [hu, place_select]
    rcases Codec.inject_eq_error_iff.1 he with ⟨hl, rfl⟩ | ⟨-, hs⟩
    · rw [hn] at hl ⊢
      exact .arity hl
    · obtain ⟨front, slot, value, back, path, reason, hz, hf, hr, rfl⟩ := Codec.stageAll_eq_error hs
      rw [zip_select, List.map_eq_append_iff] at hz
      obtain ⟨front, rest, hz, rfl, hm⟩ := hz
      obtain ⟨⟨i, value⟩, back, rfl, he, -⟩ := List.map_eq_cons_iff.1 hm
      cases he
      rw [List.forall_mem_map] at hf
      rw [List.length_map]
      exact .rejected hz hf hr
  · obtain ⟨hl, ht⟩ := Codec.inject_eq_ok_iff_takes.1 hi
    rw [hn] at hl
    exact .all hl (takes_place hd hl ht) fun i => get_place_of_not_mem

theorem unpack_effect (policy : Policy) (session : Session n) (hd : slots.Nodup) (data : Bytes) :
    Effect policy session (.unpack slots data)
      (session.write slots (Codec.unpack policy data (session.select slots))).1
      (session.write slots (Codec.unpack policy data (session.select slots))).2 := by
  rw [Codec.unpack, write]
  cases hv : Codec.decodeValues policy ((session.select slots).map (·.type.descriptor)) data with
  | error failure =>
    dsimp only
    rw [place_select]
    exact .undecoded hv
  | ok values => exact .unpack hv (inject_writes session hd values)

theorem step_effect (policy : Policy) (session : Session n) (hd : step.Distinct) :
    Effect policy session step (session.step policy step).1 (session.step policy step).2 := by
  cases step with
  | pack slots => exact .pack slots
  | schema slots => exact .schema slots
  | unpack slots data => exact unpack_effect policy session hd data
  | scan slots attestation => exact .scan (unpack_effect policy session hd attestation.data)
  | inject slots values => exact .inject (inject_writes session hd values)
  | commit source target value =>
    rw [Session.step]
    cases hs : (session.get source).stage value with
    | error failure => exact .unstaged (Slot.decode_of_stage_error hs)
    | ok staged =>
      by_cases ht : (session.get source).type = (session.get target).type
      · obtain ⟨written, hc, hw⟩ := Slot.commit_staged hs ht
        simp only [hc]
        refine .commit ht ?_ fun i hi => ?_
        · rwa [get_set_self]
        · rw [get_set_of_ne session hi]
      · obtain ⟨x, hx, rfl⟩ := Slot.stage_eq_ok_iff.1 hs
        have hc : (session.get target).commit ⟨(session.get source).type, x⟩ =
            (.error (.injection [] .foreignType), session.get target) := Slot.commit_foreign ht
        simp only [hc, set_get_self]
        exact .foreign hx ht

theorem Writes.get_type_eq (h : Writes before slots values outcome after) (i : Fin n) :
    (after.get i).type = (before.get i).type := by
  cases h with
  | all hl hw ho =>
    by_cases hi : i ∈ slots
    · rw [← List.map_fst_zip (Nat.le_of_eq hl.symm), List.mem_map] at hi
      obtain ⟨p, hp, rfl⟩ := hi
      exact (hw p hp).type_eq
    · rw [ho i hi]
  | arity | rejected => rfl

theorem Effect.get_type_eq (h : Effect policy before step report after) (i : Fin n) :
    (after.get i).type = (before.get i).type := by
  induction h with
  | inject h | unpack _ h => exact h.get_type_eq i
  | scan _ ih => exact ih
  | @commit source target value after ht hw ho =>
    by_cases hi : i = target
    · rw [hi, hw.type_eq]
    · rw [ho i hi]
  | pack | schema | undecoded | unstaged | foreign => rfl

theorem Effect.eq_of_fails (h : Effect policy before step report after) (hf : report.Fails) :
    after = before := by
  induction h with
  | inject h | unpack _ h =>
    cases h with
    | all => exact hf.elim
    | arity | rejected => rfl
  | scan _ ih => exact ih hf
  | commit => exact hf.elim
  | pack | schema | undecoded | unstaged | foreign => rfl

end Steps

section Runs

variable {policy : Policy} {session : Session n} {steps : List (Step n)}
  {reports : List (Report × Session n)} {p q : Session n → Step n → Report → Session n → Prop}

theorem Along.imp (h : Along p session steps reports)
    (hi : ∀ {before after : Session n} {step : Step n} {report : Report},
      p before step report after → q before step report after) : Along q session steps reports := by
  induction h with
  | nil session => exact .nil session
  | cons h _ ih => exact .cons (hi h) ih

theorem Along.preserves {I : Session n → Prop} (h : Along p session steps reports)
    (hi : ∀ {before after : Session n} {step : Step n} {report : Report},
      p before step report after → I before → I after) (hs : I session) :
    ∀ r ∈ reports, I r.2 := by
  induction h with
  | nil session => exact List.forall_mem_nil _
  | cons h _ ih =>
    have ha := hi h hs
    exact List.forall_mem_cons.2 ⟨ha, ih ha⟩

theorem run_effect (policy : Policy) (session : Session n) (hd : ∀ step ∈ steps, step.Distinct) :
    Along (Effect policy) session steps (session.run policy steps) := by
  induction steps generalizing session with
  | nil => exact .nil session
  | cons step steps ih =>
    rw [List.forall_mem_cons] at hd
    exact .cons (step_effect policy session hd.1) (ih _ hd.2)

theorem schemaOf_eq_of_types {before after : Session n}
    (h : ∀ i, (after.get i).type = (before.get i).type) (slots : List (Fin n)) :
    Codec.schemaOf ((after.select slots).map Slot.toArgument) =
      Codec.schemaOf ((before.select slots).map Slot.toArgument) := by
  simp only [Codec.schemaOf, select, List.map_map, Function.comp_def, h]

/-- Along a run, slots are written all or none, a step that fails changes nothing, and each slot
    keeps its type; so the schema of the slots stays as well. Injection fails on a wrong count or in
    staging. Once all values are staged, its commits do not fail. -/
theorem run_sound (policy : Policy) (session : Session n) (hd : ∀ step ∈ steps, step.Distinct) :
    Along (Effect policy) session steps (session.run policy steps) ∧
      Along (fun before _ report after => report.Fails → after = before) session steps
        (session.run policy steps) ∧
      (∀ r ∈ session.run policy steps, (∀ i, (r.2.get i).type = (session.get i).type) ∧
        ∀ slots, Codec.schemaOf ((r.2.select slots).map Slot.toArgument) =
          Codec.schemaOf ((session.select slots).map Slot.toArgument)) ∧
      ∀ (values : List Value) (slots : List Slot),
        (∀ failure, (Codec.inject values slots).1 = .error failure ↔
          (values.length ≠ slots.length ∧ failure = .arity slots.length values.length) ∨
            values.length = slots.length ∧ Codec.stageAll slots values = .error failure) ∧
        ∀ staged, values.length = slots.length → Codec.stageAll slots values = .ok staged →
          Codec.inject values slots = Codec.commitAll 0 slots staged ∧
            (Codec.commitAll 0 slots staged).1 = .ok () := by
  have he := run_effect policy session hd
  have ht : ∀ r ∈ session.run policy steps, ∀ i, (r.2.get i).type = (session.get i).type := by
    refine Along.preserves (I := fun s => ∀ i, (s.get i).type = (session.get i).type) he ?_
      fun _ => rfl
    exact fun h hb i => (h.get_type_eq i).trans (hb i)
  refine ⟨he, he.imp fun h hf => h.eq_of_fails hf, fun r hr => ⟨ht r hr, ?_⟩, ?_⟩
  · exact schemaOf_eq_of_types (ht r hr)
  · intro values slots
    refine ⟨fun failure => Codec.inject_eq_error_iff, fun staged hl hs => ?_⟩
    obtain ⟨written, hc, -⟩ := Codec.commitAll_of_staged hl hs
    exact ⟨Codec.inject_of_staged hl hs, congrArg Prod.fst hc⟩

def ballot : Session 2 :=
  #v[⟨⟨.scalar .bool, false⟩, rfl⟩, ⟨⟨.scalar .string, ""⟩, rfl⟩]

/-- Of these only the first succeeds in writing: the second gives the bit a number, and the third
    commits a bit to the text. -/
def ballotSteps : List (Step 2) :=
  [.inject [0, 1] [.bool true, .string "né"], .inject [1, 0] [.string "gm", .uint 1],
    .commit 0 1 (.bool false), .pack [0, 1]]

theorem run_sound_ballot : (∀ step ∈ ballotSteps, step.Distinct) ∧
    Along (Effect {}) ballot ballotSteps (ballot.run {} ballotSteps) ∧
    Along (fun before _ report after => report.Fails → after = before) ballot ballotSteps
      (ballot.run {} ballotSteps) ∧
    ∀ r ∈ ballot.run {} ballotSteps, ∀ i, (r.2.get i).type = (ballot.get i).type := by
  have hd : ∀ step ∈ ballotSteps, step.Distinct := by simp [ballotSteps, Step.Distinct]
  obtain ⟨he, hf, ht, -⟩ := run_sound {} ballot hd
  exact ⟨hd, he, hf, fun r hr => (ht r hr).1⟩

example : ballot.step {} (.inject [1, 0] [.string "gm", .uint 1]) =
    (.written (.error (.injection [.argument 1] (.kind (.ofType .bool) .uint))), ballot) := rfl

end Runs

end Session

end Attest
