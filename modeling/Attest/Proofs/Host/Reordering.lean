import Mathlib.Data.List.Nodup
import Attest.Proofs.Extraction

set_option autoImplicit false

/-!
# Order of fields

Host types do not see in which order a tuple lists its fields, as long as no name occurs twice. A
record takes its fields out by name, and after each of them the two tuples are again one list in two
orders; all else goes by kind and by count, which are the same.
-/
namespace Attest

mutual

/-- Whether two values differ at most in the order in which tuples list their fields, at any depth.
    A tuple whose fields stand in another order has no name twice. -/
inductive Reordered : Value → Value → Prop
  | refl (v : Value) : Reordered v v
  | tuple {fields others : List (Named Value)} (h : ReorderedFields fields others) :
    Reordered (.tuple fields) (.tuple others)
  | permuted {fields others permuted : List (Named Value)} (h : ReorderedFields fields others)
    (hn : (others.map Named.name).Nodup) (hp : others.Perm permuted) :
    Reordered (.tuple fields) (.tuple permuted)
  | fixedArray {values others : List Value} (h : List.Forall₂ Reordered values others) :
    Reordered (.fixedArray values) (.fixedArray others)
  | array {values others : List Value} (h : List.Forall₂ Reordered values others) :
    Reordered (.array values) (.array others)

inductive ReorderedFields : List (Named Value) → List (Named Value) → Prop
  | nil : ReorderedFields [] []
  | cons {name : String} {v w : Value} {fields others : List (Named Value)} (h : Reordered v w)
    (hs : ReorderedFields fields others) :
    ReorderedFields (⟨name, v⟩ :: fields) (⟨name, w⟩ :: others)

end

section Kinds

variable {fields others : List (Named Value)} {v w : Value}

theorem ReorderedFields.length_eq (h : ReorderedFields fields others) :
    fields.length = others.length := by
  induction fields generalizing others with
  | nil =>
    cases h
    rfl
  | cons field fields ih =>
    cases h with
    | cons _ hs => rw [List.length_cons, List.length_cons, ih hs]

theorem Reordered.kind_eq (h : Reordered v w) : v.kind = w.kind := by
  cases h with
  | refl => rfl
  | tuple h => rw [Value.kind, Value.kind, h.length_eq]
  | permuted h _ hp => rw [Value.kind, Value.kind, h.length_eq, hp.length_eq]
  | fixedArray h => rw [Value.kind, Value.kind, h.length_eq]
  | array h => rfl

theorem Reordered.mismatch_eq {α : Type} (h : Reordered v w) (expected : Expected) :
    (v.mismatch expected : Result α) = w.mismatch expected := by
  rw [Value.mismatch, Value.mismatch, h.kind_eq]

end Kinds

namespace TupleFields

variable {fields others : List (Named Value)}

theorem extract?_reordered (h : ReorderedFields fields others) (name : String) :
    Option.Rel (fun x y => Reordered x.1 y.1 ∧ ReorderedFields x.2.fields y.2.fields)
      (extract? name ⟨fields⟩) (extract? name ⟨others⟩) := by
  induction fields generalizing others with
  | nil =>
    cases h
    exact .none
  | cons field fields ih =>
    cases h with
    | @cons first v w _ others h hs =>
      by_cases hn : first = name
      · subst hn
        rw [HostType.extract?_cons, HostType.extract?_cons]
        exact .some ⟨h, hs⟩
      · have hr := ih hs
        rw [extract?_cons_of_ne hn, extract?_cons_of_ne hn]
        generalize extract? name ⟨fields⟩ = x at hr ⊢
        generalize extract? name ⟨others⟩ = y at hr ⊢
        cases hr with
        | none => exact .none
        | some hx => exact .some ⟨hx.1, .cons h hx.2⟩

theorem find?_eq_some_iff (hn : (fields.map Named.name).Nodup) {name : String}
    {field : Named Value} :
    fields.find? (·.name == name) = some field ↔ field ∈ fields ∧ field.name = name := by
  constructor
  · intro h
    exact ⟨List.mem_of_find?_eq_some h, by simpa using List.find?_some h⟩
  · intro h
    obtain ⟨hm, rfl⟩ := h
    cases hf : fields.find? (·.name == field.name) with
    | none => exact absurd (beq_self_eq_true field.name) (List.find?_eq_none.1 hf field hm)
    | some first =>
      have hs : first.name = field.name := by simpa using List.find?_some hf
      rw [List.inj_on_of_nodup_map hn (List.mem_of_find?_eq_some hf) hm hs]

/-- With distinct names a field is found in any order, and what is left is one list in two orders
    again. -/
theorem extract?_perm (hn : (fields.map Named.name).Nodup) (hp : fields.Perm others)
    (name : String) :
    Option.Rel (fun x y => x.1 = y.1 ∧ (x.2.fields.map Named.name).Nodup ∧
        x.2.fields.Perm y.2.fields)
      (extract? name ⟨fields⟩) (extract? name ⟨others⟩) := by
  have ho : (others.map Named.name).Nodup := (hp.map Named.name).nodup_iff.1 hn
  have hf : fields.find? (·.name == name) = others.find? (·.name == name) :=
    Option.ext fun field => by rw [find?_eq_some_iff hn, find?_eq_some_iff ho, hp.mem_iff]
  have hd : fields.Pairwise fun a b => (a.name == name) = true → (b.name == name) = true → False :=
    (List.pairwise_map.1 hn).imp fun hne ha hb =>
      hne ((beq_iff_eq.1 ha).trans (beq_iff_eq.1 hb).symm)
  rw [extract?, extract?]
  dsimp only
  rw [hf]
  cases others.find? (·.name == name) with
  | none => exact .none
  | some field =>
    have hs := (List.eraseP_sublist (p := (·.name == name)) (l := fields)).map Named.name
    exact .some ⟨rfl, hn.sublist hs, hp.eraseP _ hd⟩

/-- One take of two tuples converts alike and leaves related ones, if what it finds is converted
    alike and leaves related ones. -/
theorem take_related {s : Value × TupleFields → Value × TupleFields → Prop}
    {r : TupleFields → TupleFields → Prop} {tuple other : TupleFields} {type : HostType}
    {name : String} (h : Option.Rel s (tuple.extract? name) (other.extract? name))
    (hs : ∀ {x y}, s x y → type.decode x.1 = type.decode y.1 ∧ r x.2 y.2) (hr : r tuple other) :
    (tuple.take type name).1 = (other.take type name).1 ∧
      r (tuple.take type name).2 (other.take type name).2 := by
  unfold take takeWith
  generalize tuple.extract? name = x at h ⊢
  generalize other.extract? name = y at h ⊢
  cases h with
  | none => exact ⟨rfl, hr⟩
  | some h => exact ⟨congrArg (Result.within (.field name)) (hs h).1, (hs h).2⟩

end TupleFields

theorem convertElements_congr {α β γ : Type} {f : α → Result γ} {g : β → Result γ} {as : List α}
    {bs : List β} (h : List.Forall₂ (fun a b => f a = g b) as bs) (position : Nat) :
    convertElements f position as = convertElements g position bs := by
  induction h generalizing position with
  | nil => rfl
  | cons ha _ ih => rw [convertElements, convertElements, ha, ih]

theorem Scalar.decode_eq_of_reordered (s : Scalar) {v w : Value} (h : Reordered v w) :
    s.decode v = s.decode w := by
  have hm : ∀ α expected, (v.mismatch expected : Result α) = w.mismatch expected :=
    fun α => h.mismatch_eq
  have hw : decodeWord v = decodeWord w := by
    cases h <;> first | rfl | exact hm _ _
  have hb : decodeBytes32 v = decodeBytes32 w := by
    cases h <;> first | rfl | exact hm _ _
  cases s with
  | natural => exact congrArg (Except.map BitVec.toNat) hw
  | uid => exact congrArg (Except.map Uid.mk) hb
  | _ => cases h <;> first | rfl | exact hm _ _

namespace HostType

theorem decodeFields_perm (fields : List (Named HostType)) {tuple others : List (Named Value)}
    (hn : (tuple.map Named.name).Nodup) (hp : tuple.Perm others) :
    decodeFields fields ⟨tuple⟩ = decodeFields fields ⟨others⟩ := by
  induction fields generalizing tuple others with
  | nil => rfl
  | cons field fields ih =>
    -- What a take leaves is again one list without repeated names, in two orders.
    have he := TupleFields.extract?_perm hn hp field.name
    obtain ⟨hv, hn, hp⟩ := TupleFields.take_related
      (r := fun x y => (x.fields.map Named.name).Nodup ∧ x.fields.Perm y.fields) he
      (fun h => ⟨congrArg field.item.decode h.1, h.2⟩) ⟨hn, hp⟩
    rw [decodeFields_cons, decodeFields_cons, hv, ih hn hp]

theorem decodeSequence_reordered {element : HostType} {decode : Value → Result element.Val}
    (hd : ∀ v w, Reordered v w → decode v = decode w) (size : Option Nat) {v w : Value}
    (h : Reordered v w) :
    decodeSequence element decode size v = decodeSequence element decode size w := by
  have hm := h.mismatch_eq (α := List element.Val)
  have he : ∀ size, decodeElements element decode size v = decodeElements element decode size w := by
    intro size
    cases h with
    | refl => rfl
    | fixedArray h =>
      cases size with
      | some size =>
        rw [decodeElements, decodeElements, h.length_eq, convertElements_congr (h.imp hd)]
      | none => exact hm _
    | array h =>
      cases size with
      | some size => exact hm _
      | none => exact convertElements_congr (h.imp hd) 0
    | _ => cases size <;> exact hm _
  unfold decodeSequence
  split
  · cases h <;> first | rfl | exact hm _
  · exact congrArg _ (Scalar.decode_eq_of_reordered .hash h)
  · exact he _

mutual

theorem decode_eq_of_reordered (t : HostType) {v w : Value} (h : Reordered v w) :
    t.decode v = t.decode w := by
  cases t with
  | scalar s => exact s.decode_eq_of_reordered h
  | pointer kind target => exact decode_eq_of_reordered target h
  | optional target => exact congrArg (Except.map some) (decode_eq_of_reordered target h)
  | sequence extent element =>
    rw [decode, decode,
      decodeSequence_reordered (fun v w h => decode_eq_of_reordered element h) extent.size? h]
  | record name fields =>
    have hm := h.mismatch_eq (α := TupleFields) .tuple
    cases h with
    | refl => rfl
    | tuple h => exact decodeFields_eq_of_reordered fields h
    | permuted h hn hp =>
      exact (decodeFields_eq_of_reordered fields h).trans (decodeFields_perm fields hn hp)
    | _ =>
      rw [decode, decode]
      exact congrArg (· >>= decodeFields fields) hm

theorem decodeFields_eq_of_reordered (fields : List (Named HostType))
    {tuple others : List (Named Value)} (h : ReorderedFields tuple others) :
    decodeFields fields ⟨tuple⟩ = decodeFields fields ⟨others⟩ := by
  cases fields with
  | nil => rfl
  | cons field fields =>
    have he := TupleFields.extract?_reordered h field.name
    obtain ⟨hv, hs⟩ := TupleFields.take_related (r := fun x y => ReorderedFields x.fields y.fields)
      he (fun h => ⟨decode_eq_of_reordered field.item h.1, h.2⟩) h
    rw [decodeFields_cons, decodeFields_cons, hv, decodeFields_eq_of_reordered fields hs]

end

/-- A host type makes the same of two values that differ in the order of fields alone. So what a host
    value encodes to may be reordered, and still is decoded to that value. -/
theorem decode_reordered (t : HostType) {v w : Value} (h : Reordered v w) :
    t.decode v = t.decode w ∧ ∀ x, t.encode x = .ok v → t.decode w = .ok x := by
  have he := t.decode_eq_of_reordered h
  refine ⟨he, fun x hx => ?_⟩
  rw [← he]
  exact (t.decode_eq_ok_iff (t.encode_sound hx).1 x).2 hx

def ballotType (weight : UintWidth) : HostType :=
  .record "Ballot" [
    ⟨"votes", .sequence .growing
      (.record "Vote" [⟨"voter", .scalar .string⟩, ⟨"weight", .scalar (.uint weight)⟩])⟩,
    ⟨"round", .optional (.pointer .boxed (.scalar (.uint .w16)))⟩]

def ballot : Value :=
  .tuple [
    ⟨"votes", .array [.tuple [⟨"voter", .string "né"⟩, ⟨"weight", .uint 7⟩],
      .tuple [⟨"voter", .string ""⟩, ⟨"weight", .uint 300⟩]]⟩,
    ⟨"round", .uint 2⟩]

/-- The same with the fields of the ballot and of the second vote the other way round. -/
def ballotReordered : Value :=
  .tuple [
    ⟨"round", .uint 2⟩,
    ⟨"votes", .array [.tuple [⟨"voter", .string "né"⟩, ⟨"weight", .uint 7⟩],
      .tuple [⟨"weight", .uint 300⟩, ⟨"voter", .string ""⟩]]⟩]

set_option maxRecDepth 4000 in
theorem decode_reordered_ballot :
    Reordered ballot ballotReordered ∧
      (ballotType .w16).decode ballotReordered =
        .ok ([("né", 7#16, ()), ("", 300#16, ())], some 2#16, ()) ∧
      (ballotType .w8).decode ballotReordered =
        .error (.injection [.field "votes", .index 1, .field "weight"] (.overflow 300 .w8)) := by
  have hv : Reordered (.tuple [⟨"voter", .string ""⟩, ⟨"weight", .uint 300⟩])
      (.tuple [⟨"weight", .uint 300⟩, ⟨"voter", .string ""⟩]) :=
    .permuted (.cons (.refl _) (.cons (.refl _) .nil)) (by decide) (.swap _ _ _)
  have h : Reordered ballot ballotReordered :=
    .permuted (.cons (.array (.cons (.refl _) (.cons hv .nil))) (.cons (.refl _) .nil)) (by decide)
      (.swap _ _ _)
  have he : (ballotType .w16).encode ([("né", 7#16, ()), ("", 300#16, ())], some 2#16, ()) =
      .ok ballot := rfl
  exact ⟨h, ((ballotType .w16).decode_reordered h).2 _ he,
    ((ballotType .w8).decode_reordered h).1.symm⟩

end HostType

end Attest
