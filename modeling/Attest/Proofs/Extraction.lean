import Attest.Proofs.Host.Conversion
import Attest.Proofs.Host.Rejection

set_option autoImplicit false

namespace Attest.TupleFields

theorem extract?_cons_of_ne {name : String} {field : Named Value} (h : field.name ≠ name)
    (fields : List (Named Value)) :
    extract? name ⟨field :: fields⟩ =
      (extract? name ⟨fields⟩).map fun (value, left) => (value, ⟨field :: left.fields⟩) := by
  have hb : (field.name == name) = false := beq_false_of_ne h
  rw [extract?, extract?]
  simp only [List.find?_cons, List.eraseP_cons, hb]
  cases fields.find? (·.name == name) <;> rfl

def named (name : String) (fields : List (Named Value)) : List (Named Value) :=
  fields.filter (·.name == name)

/-- The fields that are left of a tuple once some names were taken, in their order: those with no
    fewer fields of their name in front of them than there were takes of it. -/
def untaken (taken : List String) (fields : List (Named Value)) : List (Named Value) :=
  (fields.zipIdx.filter fun (field, i) =>
    decide (taken.count field.name ≤ ((fields.take i).map Named.name).count field.name)).map Prod.fst

section Names

variable {name : String} {taken others : List String} {field : Named Value}

theorem named_cons_self (field : Named Value) (fields : List (Named Value)) :
    named field.name (field :: fields) = field :: named field.name fields := by
  rw [named, List.filter_cons, beq_self_eq_true, if_pos rfl, named]

theorem named_cons_of_ne (h : field.name ≠ name) (fields : List (Named Value)) :
    named name (field :: fields) = named name fields := by
  rw [named, List.filter_cons, beq_false_of_ne h, if_neg Bool.false_ne_true, named]

theorem count_eq_of_mem (h : name ∈ taken) :
    taken.count name = (taken.erase name).count name + 1 := by
  rw [(List.perm_cons_erase h).count_eq, List.count_cons_self]

theorem count_le_count_cons_iff (taken names : List String) (first name : String) :
    taken.count name ≤ (first :: names).count name ↔
      (taken.erase first).count name ≤ names.count name := by
  by_cases h : first = name
  · rw [h, List.count_cons_self, List.count_erase_self]
    omega
  · rw [List.count_cons_of_ne h, List.count_erase_of_ne (Ne.symm h)]

theorem untaken_perm (h : taken.Perm others) (fields : List (Named Value)) :
    untaken taken fields = untaken others fields := by
  simp only [untaken, h.count_eq]

theorem untaken_nil (fields : List (Named Value)) : untaken [] fields = fields := by
  simp [untaken, List.zipIdx_map_fst]

theorem untaken_cons (taken : List String) (field : Named Value) (fields : List (Named Value)) :
    untaken taken (field :: fields) =
      if field.name ∈ taken then untaken (taken.erase field.name) fields
      else field :: untaken taken fields := by
  have hs : untaken taken (field :: fields) =
      (if field.name ∈ taken then [] else [field]) ++ untaken (taken.erase field.name) fields := by
    simp only [untaken, List.zipIdx_cons, List.zipIdx_succ, List.filter_cons, List.filter_map]
    by_cases h : field.name ∈ taken <;>
      simp [h, Function.comp_def, count_le_count_cons_iff, List.count_eq_zero]
  rw [hs]
  split
  · rfl
  · rename_i h
    rw [List.erase_of_not_mem h]
    rfl

theorem untaken_cons_self (taken : List String) (field : Named Value) (fields : List (Named Value)) :
    untaken (field.name :: taken) (field :: fields) = untaken taken fields := by
  rw [untaken_cons, if_pos (List.mem_cons_self ..), List.erase_cons_head]

theorem untaken_cons_of_ne (h : field.name ≠ name) (taken : List String)
    (fields : List (Named Value)) :
    untaken (name :: taken) (field :: fields) =
      if field.name ∈ taken then untaken (name :: taken.erase field.name) fields
      else field :: untaken (name :: taken) fields := by
  have hm : field.name ∈ name :: taken ↔ field.name ∈ taken := by simp [h]
  have he : (name :: taken).erase field.name = name :: taken.erase field.name :=
    List.erase_cons_tail (by simpa using Ne.symm h)
  rw [untaken_cons, he]
  simp only [hm]

/-- Of each name, the next field is the one behind as many as were taken. -/
theorem extract?_untaken (name : String) (taken : List String) (fields : List (Named Value)) :
    extract? name ⟨untaken taken fields⟩ =
      (named name fields)[taken.count name]?.map fun field =>
        (field.item, ⟨untaken (name :: taken) fields⟩) := by
  induction fields generalizing taken with
  | nil => rfl
  | cons field fields ih =>
    rw [untaken_cons]
    by_cases hn : field.name = name
    · subst hn
      rw [untaken_cons_self, named_cons_self]
      split
      · rename_i h
        rw [ih, untaken_perm (List.perm_cons_erase h).symm, count_eq_of_mem h,
          List.getElem?_cons_succ]
      · rename_i h
        rw [List.count_eq_zero.2 h]
        exact HostType.extract?_cons field.name field.item _
    · rw [untaken_cons_of_ne hn, named_cons_of_ne hn]
      split
      · rw [ih, List.count_erase_of_ne (Ne.symm hn)]
      · rw [extract?_cons_of_ne hn, ih, Option.map_map]
        rfl

theorem untaken_of_le {fields : List (Named Value)}
    (h : (named name fields).length ≤ taken.count name) :
    untaken (name :: taken) fields = untaken taken fields := by
  induction fields generalizing taken with
  | nil => rfl
  | cons field fields ih =>
    rw [untaken_cons taken]
    by_cases hn : field.name = name
    · subst hn
      rw [named_cons_self, List.length_cons] at h
      have hm : field.name ∈ taken := List.count_pos_iff.1 (by omega)
      rw [count_eq_of_mem hm] at h
      rw [untaken_cons_self, if_pos hm, untaken_perm (List.perm_cons_erase hm)]
      exact ih (by omega)
    · rw [named_cons_of_ne hn] at h
      have he : (taken.erase field.name).count name = taken.count name :=
        List.count_erase_of_ne (Ne.symm hn)
      rw [untaken_cons_of_ne hn, ih h, ih (by rw [he]; exact h)]

end Names

section Runs

variable {type : HostType} {name : String} {taken : List String} {fields : List (Named Value)}

theorem take_untaken_of_some {field : Named Value}
    (h : (named name fields)[taken.count name]? = some field) :
    take ⟨untaken taken fields⟩ type name =
      (Result.within (.field name) (type.decode field.item), ⟨untaken (name :: taken) fields⟩) := by
  apply take_of_extract?
  rw [extract?_untaken, h]
  rfl

theorem take_untaken_of_le (h : (named name fields).length ≤ taken.count name) :
    take ⟨untaken taken fields⟩ type name =
      (.error (.injection [.field name] .missingField), ⟨untaken taken fields⟩) := by
  apply take_of_missing
  rw [extract?_untaken, List.getElem?_eq_none h]
  rfl

theorem take_untaken_snd (type : HostType) (name : String) (taken : List String)
    (fields : List (Named Value)) :
    (take ⟨untaken taken fields⟩ type name).2 = ⟨untaken (name :: taken) fields⟩ := by
  cases h : (named name fields)[taken.count name]? with
  | some field => rw [take_untaken_of_some h]
  | none =>
    rw [List.getElem?_eq_none_iff] at h
    rw [take_untaken_of_le h, untaken_of_le h]

def after (tuple : TupleFields) (takes : List (Named HostType)) : TupleFields :=
  takes.foldl (fun left request => (left.take request.item request.name).2) tuple

theorem after_untaken (taken : List String) (fields : List (Named Value))
    (takes : List (Named HostType)) :
    after ⟨untaken taken fields⟩ takes = ⟨untaken (takes.map Named.name ++ taken) fields⟩ := by
  induction takes generalizing taken with
  | nil => rfl
  | cons request takes ih =>
    have hp : (takes.map Named.name ++ request.name :: taken).Perm
        ((request :: takes).map Named.name ++ taken) := List.perm_middle
    have hs : after ⟨untaken taken fields⟩ (request :: takes) =
        after ⟨untaken (request.name :: taken) fields⟩ takes := by
      rw [after, List.foldl_cons, take_untaken_snd, after]
    rw [hs, ih, untaken_perm hp]

theorem after_eq (fields : List (Named Value)) (takes : List (Named HostType)) :
    after ⟨fields⟩ takes = ⟨untaken (takes.map Named.name) fields⟩ := by
  have h := after_untaken [] fields takes
  rwa [untaken_nil, List.append_nil] at h

theorem within_ne_missing (type : HostType) (name : String) (value : Value) :
    Result.within (.field name) (type.decode value) ≠
      .error (.injection [.field name] .missingField) := by
  intro h
  have hd := type.decode_ne_missing value
  cases hv : type.decode value with
  | ok v =>
    rw [hv] at h
    cases h
  | error failure =>
    rw [hv] at h hd
    cases failure <;> cases h
    exact hd rfl

/-- After any takes, the next take of a name converts the field of that name behind as many as there
    were takes of it, and says that a field is missing exactly if there is none; then nothing changes.
    All fields that were not taken are left, in their order. -/
theorem take_after (fields : List (Named Value)) :
    ∃ opened, (Value.tuple fields).openTuple = .ok opened ∧
      ∀ (takes : List (Named HostType)) (type : HostType) (name : String),
        (∀ field, (named name fields)[(takes.map Named.name).count name]? = some field →
          ((opened.after takes).take type name).1 =
            Result.within (.field name) (type.decode field.item)) ∧
        (((opened.after takes).take type name).1 =
            .error (.injection [.field name] .missingField) ↔
          (named name fields).length < (takes.map Named.name).count name + 1) ∧
        ((named name fields).length < (takes.map Named.name).count name + 1 →
          ((opened.after takes).take type name).2 = opened.after takes) ∧
        (opened.after takes).fields = untaken (takes.map Named.name) fields := by
  refine ⟨⟨fields⟩, rfl, fun takes type name => ?_⟩
  rw [after_eq]
  refine ⟨fun field h => ?_, ⟨fun h => ?_, fun h => ?_⟩, fun h => ?_, rfl⟩
  · rw [take_untaken_of_some h]
  · rw [Nat.lt_succ_iff, ← List.getElem?_eq_none_iff, Option.eq_none_iff_forall_ne_some]
    intro field hf
    rw [take_untaken_of_some hf] at h
    exact within_ne_missing type name field.item h
  · rw [take_untaken_of_le (Nat.lt_succ_iff.1 h)]
  · rw [take_untaken_of_le (Nat.lt_succ_iff.1 h)]

/-- The first take does not convert and the second finds nothing. -/
example : after ⟨[⟨"a", .bool true⟩, ⟨"c", .uint 1⟩, ⟨"a", .uint 2⟩, ⟨"a", .uint 3⟩]⟩
    [⟨"a", .scalar .string⟩, ⟨"b", .scalar .bool⟩, ⟨"a", .scalar .word⟩] =
      ⟨[⟨"c", .uint 1⟩, ⟨"a", .uint 3⟩]⟩ := rfl

end Runs

end Attest.TupleFields
